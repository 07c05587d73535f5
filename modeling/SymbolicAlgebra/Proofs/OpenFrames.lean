import SymbolicAlgebra.Proofs.ByteScanner
import SymbolicAlgebra.Proofs.SignTokens

set_option autoImplicit false

/-!
# The brackets that are open and the arguments behind them

The number of arguments of a call may be counted from the tokens once all of them are known, or
written into the call when its bracket is closed. For the second way a frame is kept for each
open bracket; it knows the call before the bracket and the commas behind it
(`ByteScanner.Frames`).

Both ways give the same tokens (`ByteScanner.setArity_eq`): further tokens change the count of no
call but the one in front of the bracket that they close. Tokens that close nothing leave every
earlier count as it is (`Token.settleArities_append`), and a count in nested brackets is settled
for good (`Token.settleArities_nested`).
-/

namespace SymbolicAlgebra

variable {R : Type}

/-! ## Counts that stay as they are -/

namespace Token

/-- No group that was open before the tokens is closed by them. -/
def ClosesNothing (ts : List (Token R)) : Prop :=
  ∀ depth commas any, argumentCount depth commas any ts = 0

theorem closesNothing_nil : ClosesNothing ([] : List (Token R)) := fun _ _ _ => rfl

theorem ClosesNothing.opening {b : Delimiter} (hb : b.isOpen = true) {ts : List (Token R)}
    (h : ClosesNothing ts) : ClosesNothing (.delimiter b :: ts) := by
  intro depth commas any
  rw [argumentCount_open hb]
  exact h _ _ _

theorem ClosesNothing.nested {w ts : List (Token R)} (hw : Nested w) (h : ClosesNothing ts) :
    ClosesNothing (w ++ ts) := by
  induction hw with
  | nil => exact h
  | cons ht _ ih =>
    rename_i t w _
    intro depth commas any
    cases t with
    | delimiter d => cases d <;> first | exact ih _ _ _ | cases ht
    | _ => exact ih _ _ _
  | group hb hv _ _ ih =>
    obtain ⟨ho, hc⟩ := Delimiter.isOpen_isClose hb
    intro depth commas any
    rw [List.cons_append, List.append_assoc, argumentCount_open ho, hv.argumentCount_inner,
      List.cons_append, argumentCount_close hc]
    exact ih _ _ _

theorem closesNothing_of_nested {w : List (Token R)} (h : Nested w) : ClosesNothing w := by
  have := ClosesNothing.nested h closesNothing_nil
  rwa [List.append_nil] at this

/-- What closes nothing does not change a count. -/
theorem argumentCount_append {u : List (Token R)} (hu : ClosesNothing u) (ts : List (Token R))
    (depth commas : Nat) (any : Bool) :
    argumentCount depth commas any (ts ++ u) = argumentCount depth commas any ts := by
  induction ts generalizing depth commas any with
  | nil => exact hu depth commas any
  | cons t ts ih =>
    cases t with
    | delimiter d => cases d <;> simp only [List.cons_append, argumentCount, ih]
    | _ => exact ih depth commas true

/-- Behind tokens that are followed by what closes nothing, each part is settled by itself. What
stands behind a call at the end of the tokens is its opening bracket, which is not counted. -/
theorem settleArities_append {ts u : List (Token R)} (hu : ClosesNothing u)
    (hlast : ts.getLast?.any isCall = true → ClosesNothing u.tail) :
    settleArities (ts ++ u) = settleArities ts ++ settleArities u := by
  induction ts with
  | nil => rfl
  | cons t ts ih =>
    have hcount : settleArity (ts ++ u) t = settleArity ts t := by
      cases t with
      | call f n =>
        cases ts with
        | nil => exact congrArg (call f) (hlast rfl 0 0 false)
        | cons x xs => exact congrArg (call f) (argumentCount_append hu xs 0 0 false)
      | _ => rfl
    rw [List.cons_append, settleArities, settleArities, hcount, ih, List.cons_append]
    intro h
    apply hlast
    cases ts with
    | nil => cases h
    | cons x xs => rwa [List.getLast?_cons_cons]

/-- Settling the parts of a word one after the other, if every call has its group in the first
part. -/
theorem settleArities_nested {w : List (Token R)} (hw : Nested w)
    (hcalls : ∀ u f n v, w = u ++ .call f n :: v → ∃ b x, b.isOpen = true ∧ v = .delimiter b :: x)
    (rest : List (Token R)) :
    settleArities (w ++ rest) = settleArities w ++ settleArities rest := by
  -- The induction goes along the tokens, with those before them kept for what is known of `w`.
  suffices h : ∀ u v, w = u ++ v →
      settleArities (v ++ rest) = settleArities v ++ settleArities rest from h [] w rfl
  intro u v
  induction v generalizing u with
  | nil => exact fun _ => rfl
  | cons t v ih =>
    intro hv
    have hcount : settleArity (v ++ rest) t = settleArity v t := by
      cases t with
      | call f n =>
        obtain ⟨b, x, hb, rfl⟩ := hcalls u f n v hv
        have hopen : w = (u ++ [.call f n]) ++ .delimiter b :: x := by
          rw [hv, List.append_assoc]
          rfl
        obtain ⟨b', v', x', hbb, rfl, hv'⟩ := (hopen ▸ hw).exists_close hb
        obtain ⟨k, hk⟩ := hv'.exists_arguments
        have hclose := (Delimiter.isOpen_isClose hbb).2
        refine congrArg (call f) ?_
        rw [List.cons_append, List.tail_cons, List.tail_cons, List.append_assoc,
          List.cons_append, hk.argumentCount hclose, hk.argumentCount hclose]
      | _ => rfl
    have htail : w = (u ++ [t]) ++ v := by
      rw [hv, List.append_assoc]
      rfl
    rw [List.cons_append, settleArities, settleArities, hcount, ih _ htail, List.cons_append]

theorem length_settleArities (ts : List (Token R)) : (settleArities ts).length = ts.length := by
  induction ts with
  | nil => rfl
  | cons t ts ih => rw [settleArities, List.length_cons, List.length_cons, ih]

/-- The last token has no tokens behind it. -/
theorem getLast?_settleArities (ts : List (Token R)) :
    (settleArities ts).getLast? = ts.getLast?.map (settleArity []) := by
  rw [List.getLast?_eq_getElem?, List.getLast?_eq_getElem?, length_settleArities,
    getElem?_settleArities]
  cases ts with
  | nil => rfl
  | cons t ts =>
    rw [List.length_cons, Nat.add_sub_cancel, ← List.length_cons (a := t), List.drop_length]

end Token

/-! ## Words that grow at the end -/

theorem Segmented.append {w u : List (Token R)} {n : Nat} (h : Segmented w n) (hu : Segment u) :
    Segmented (w ++ u) n := by
  induction h with
  | one h => exact .one (h.append hu)
  | cons h _ ih =>
    rw [List.append_assoc, List.cons_append]
    exact .cons h ih

theorem Segmented.comma {w : List (Token R)} {n : Nat} (h : Segmented w n) :
    Segmented (w ++ [.delimiter .comma]) (n + 1) := by
  induction h with
  | one h => exact .cons h (.one .nil)
  | cons h _ ih =>
    rw [List.append_assoc, List.cons_append]
    exact .cons h ih

/-- A word falls into one number of segments. -/
theorem Segmented.unique {w : List (Token R)} {m n : Nat} (h : Segmented w m)
    (h' : Segmented w n) : m = n := by
  have hm := h.argumentCount (b := .closeParen) rfl 0 true []
  rw [h'.argumentCount rfl] at hm
  simpa using hm.symm

/-- A word without brackets and commas. -/
theorem segment_of_forall {u : List (Token R)} (h : ∀ t ∈ u, t.isDelimiter = false) :
    Segment u := by
  induction u with
  | nil => exact .nil
  | cons t u ih =>
    obtain ⟨ht, hu⟩ := List.forall_mem_cons.1 h
    exact .cons ht (ih hu)

theorem Nested.of_append {w u : List (Token R)} (h : Nested (w ++ u)) (hu : Nested u) :
    Nested w := by
  rw [nested_iff, openAfter?_append, Option.bind_eq_some_iff] at h
  obtain ⟨bs, hw, hbs⟩ := h
  rw [hu.openAfter?_eq] at hbs
  rw [nested_iff, hw, hbs]

/-- Without the segment at its end a word falls into as many segments. -/
theorem Segmented.of_append {w u : List (Token R)} {n : Nat} (h : Segmented (w ++ u) n)
    (hu : Segment u) : Segmented w n := by
  obtain ⟨m, hm⟩ := (h.nested.of_append hu.nested).exists_segmented
  rw [h.unique (hm.append hu)]
  exact hm

/-! ## Frames -/

namespace ByteScanner

/-- What the frames, the innermost first, know of the tokens, given from left to right: before
the bracket of a frame stands what the outer frames know of, and behind it as many segments as
it has passed commas, and one more. -/
inductive Frames : List Frame → List (Token R) → Prop where
  | nil {w : List (Token R)} (h : Nested w) : Frames [] w
  | cons {f : Frame} {fs : List Frame} {ts w : List (Token R)} (h : Frames fs ts)
      (hb : f.symbol.isOpen = true) (hw : Segmented w (f.commas + 1))
      (hfunction : f.function = lastCall? ts) (hstart : f.start = ts.length + 1) :
      Frames (f :: fs) (ts ++ .delimiter f.symbol :: w)

variable {fs : List Frame} {ts u : List (Token R)}

theorem Frames.append (h : Frames fs ts) (hu : Segment u) : Frames fs (ts ++ u) := by
  cases h with
  | nil h => exact .nil (h.append hu.nested)
  | cons h hb hw hf hs =>
    rw [List.append_assoc, List.cons_append]
    exact .cons h hb (hw.append hu) hf hs

/-- A comma counts for the innermost bracket. -/
theorem Frames.comma (h : Frames fs ts) :
    Frames (fs.modifyHead fun f => { f with commas := f.commas + 1 })
      (ts ++ [.delimiter .comma]) := by
  cases h with
  | nil h => exact .nil (h.append (.cons rfl .nil))
  | cons h hb hw hf hs =>
    rename_i f fs ts w
    rw [List.append_assoc, List.cons_append]
    exact Frames.cons (f := { f with commas := f.commas + 1 }) h hb hw.comma hf hs

theorem Frames.opening (h : Frames fs ts) {b : Delimiter} (hb : b.isOpen = true) (position : Nat) :
    Frames (⟨b, position, lastCall? ts, 0, ts.length + 1⟩ :: fs) (ts ++ [.delimiter b]) :=
  .cons (f := ⟨b, position, lastCall? ts, 0, ts.length + 1⟩) h hb (.one .nil) rfl rfl

/-- Tokens that are no brackets and no commas may be taken back. -/
theorem Frames.of_append (h : Frames fs (ts ++ u)) (hu : ∀ t ∈ u, t.isDelimiter = false) :
    Frames fs ts := by
  generalize hw : ts ++ u = w at h
  cases h with
  | nil h =>
    rw [← hw] at h
    exact .nil (h.of_append (segment_of_forall hu).nested)
  | cons h hb hw' hf hs =>
    rename_i f fs p w
    -- The innermost bracket is not among the tokens taken back.
    rcases List.append_eq_append_iff.1 hw with ⟨v, rfl, hv⟩ | ⟨v, hv, hv'⟩
    · have hmem : (.delimiter f.symbol : Token R) ∈ u := by
        rw [hv]
        exact List.mem_append_right _ List.mem_cons_self
      cases hu _ hmem
    · cases v with
      | nil =>
        have hmem : (.delimiter f.symbol : Token R) ∈ u := by
          rw [List.nil_append] at hv'
          rw [← hv']
          exact List.mem_cons_self
        cases hu _ hmem
      | cons t v =>
        obtain ⟨rfl, rfl⟩ := List.cons.inj hv'
        rw [hv]
        exact .cons h hb (hw'.of_append (segment_of_forall hu)) hf hs

/-- Closing the innermost bracket leaves the outer frames. -/
theorem Frames.close {f : Frame} (h : Frames (f :: fs) ts) {b : Delimiter}
    (hb : f.symbol.closing? = some b) : Frames fs (ts ++ [.delimiter b]) := by
  cases h with
  | cons h _ hw _ _ =>
    rw [List.append_assoc, List.cons_append]
    exact h.append (.group hb hw.nested .nil)

/-! ## Settling the call before a bracket -/

theorem index_append {α : Type} (as bs : List α) (b : α) :
    index (as ++ b :: bs) as.length = .ok b := by
  simp [index]

theorem lastCall?_eq_some {i : Nat} (h : lastCall? ts = some i) :
    ∃ u f n, ts = u ++ [.call f n] ∧ i = u.length := by
  unfold lastCall? at h
  split at h
  · rename_i f n hlast
    obtain ⟨u, rfl⟩ := List.getLast?_eq_some_iff.1 hlast
    exact ⟨u, f, n, rfl, by simpa using (Option.some.inj h).symm⟩
  · cases h

theorem lastCall?_eq_none (h : lastCall? ts = none) : ts.getLast?.any Token.isCall = false := by
  unfold lastCall? at h
  split at h
  · cases h
  · rename_i hlast
    cases ht : ts.getLast? with
    | none => rfl
    | some t =>
      cases t with
      | call f n => exact absurd ht (hlast f n)
      | _ => rfl

/-- Whether a call waits for its bracket does not depend on the numbers that calls hold. -/
theorem lastCall?_settleArities (ts : List (Token R)) :
    lastCall? (Token.settleArities ts) = lastCall? ts := by
  unfold lastCall?
  rw [Token.getLast?_settleArities, Token.length_settleArities]
  cases ts.getLast? with
  | none => rfl
  | some t => cases t <;> rfl

/-- Writing the number of arguments into the call before a bracket gives the tokens that are
settled together with the bracket that closes. -/
theorem setArity_eq (ts : List (Token R)) {w : List (Token R)} {b b' : Delimiter} {n : Nat}
    (hb : b.closing? = some b') (hw : Segmented w (n + 1))
    (hcalls : ∀ u f n v, w = u ++ .call f n :: v →
      ∃ b x, b.isOpen = true ∧ v = .delimiter b :: x) :
    ∃ us, setArity (Token.settleArities (ts ++ .delimiter b :: w))
        (if w.isEmpty then 0 else n + 1) (lastCall? ts) = .ok us ∧
      us ++ [.delimiter b'] =
        Token.settleArities ((ts ++ .delimiter b :: w) ++ [.delimiter b']) := by
  obtain ⟨ho, hc⟩ := Delimiter.isOpen_isClose hb
  -- The group with and without the bracket that closes.
  have hopen : Token.ClosesNothing (.delimiter b :: w) :=
    (Token.closesNothing_of_nested hw.nested).opening ho
  have hgroup : Token.ClosesNothing (.delimiter b :: (w ++ [.delimiter b'])) :=
    Token.closesNothing_of_nested (.group hb hw.nested .nil)
  have hsettled : Token.settleArities (.delimiter b :: (w ++ [.delimiter b'])) =
      Token.settleArities (.delimiter b :: w) ++ [.delimiter b'] := by
    rw [Token.settleArities, Token.settleArities_nested hw.nested hcalls]
    rfl
  rw [List.append_assoc, List.cons_append]
  cases hlast : lastCall? ts with
  | none =>
    have hnone := lastCall?_eq_none hlast
    refine ⟨_, rfl, ?_⟩
    rw [Token.settleArities_append hopen (fun h => by rw [hnone] at h; cases h),
      Token.settleArities_append hgroup (fun h => by rw [hnone] at h; cases h), hsettled,
      List.append_assoc]
  | some i =>
    obtain ⟨u, f, m, rfl, rfl⟩ := lastCall?_eq_some hlast
    have hcount : Token.argumentCount 0 0 false (w ++ [.delimiter b']) =
        if w.isEmpty then 0 else n + 1 := by
      rw [hw.argumentCount hc]
      cases w <;> simp
    have hcall : ∀ {v : List (Token R)}, Token.ClosesNothing v →
        Token.settleArities ((u ++ [.call f m]) ++ v) =
          Token.settleArities u ++ .call f (Token.argumentCount 0 0 false v.tail) ::
            Token.settleArities v := by
      intro v hv
      have hv' : Token.ClosesNothing (.call f m :: v) := hv.nested (.cons rfl .nil)
      rw [List.append_assoc, List.singleton_append,
        Token.settleArities_append hv' fun _ => hv]
      rfl
    rw [hcall hopen, hcall hgroup, hsettled, List.tail_cons, List.tail_cons, hcount]
    refine ⟨Token.settleArities u ++ .call f (if w.isEmpty then 0 else n + 1) ::
      Token.settleArities (.delimiter b :: w), ?_, by rw [List.append_assoc, List.cons_append]⟩
    rw [setArity, ← Token.length_settleArities u, index_append]
    exact congrArg Except.ok (List.set_append_right _ _ (Nat.le_refl _) |>.trans (by simp))

end ByteScanner

end SymbolicAlgebra

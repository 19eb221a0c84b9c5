import Mathlib.Data.List.Induction

/-!
# Yes3.Rules.Register — what a log says about one register

A log of events, and a register that some of the events write: the register
holds what the last write left in it. The abstract state of a component is a
family of such registers over the log of its calls.

* `after` replays the log; `after_snoc` is the step rule, for proofs that follow
  the component call by call;
* `exists_last_write` and `after_of_last` turn the replay into a statement about
  positions in the log, and back.
-/

namespace Register

variable {ε β : Type} {write : ε → Option β} {b c : β}

/-- The register after the log, with `b` in it before: `write e` is what the
event `e` writes, if it writes at all. -/
def after (write : ε → Option β) (b : β) (log : List ε) : β :=
  log.foldl (fun b e => (write e).getD b) b

/-- One more event. -/
theorem after_snoc (write : ε → Option β) (b : β) (log : List ε) (e : ε) :
    after write b (log ++ [e]) = (write e).getD (after write b log) := by
  simp [after]

/-- The log in two parts. -/
theorem after_append (write : ε → Option β) (b : β) (log log' : List ε) :
    after write b (log ++ log') = after write (after write b log) log' := by
  simp [after]

/-- A log that writes nothing but `c`, if it writes, leaves `c`. -/
theorem after_const {log : List ε} (hwrites : ∀ e ∈ log, ∀ x, write e = some x → x = c)
    (hstart : b = c ∨ ∃ e ∈ log, write e ≠ none) : after write b log = c := by
  induction log generalizing b with
  | nil =>
      rcases hstart with rfl | ⟨e, he, _⟩
      · rfl
      · cases he
  | cons e log ih =>
      have hlog : ∀ d ∈ log, ∀ x, write d = some x → x = c := fun d hd =>
        hwrites d (List.mem_cons_of_mem e hd)
      cases hw : write e with
      | none =>
          have hstart' : b = c ∨ ∃ d ∈ log, write d ≠ none := by
            simpa [hw] using hstart
          simpa [after, hw] using ih hlog hstart'
      | some x =>
          have hx : x = c := hwrites e List.mem_cons_self x hw
          simpa [after, hw] using ih hlog (Or.inl hx)

/-- **The last write decides.** -/
theorem after_of_last {pre post : List ε} {e : ε} (hw : write e = some c)
    (hpost : ∀ d ∈ post, write d = none) : after write b (pre ++ e :: post) = c := by
  have hhead : after write b (pre ++ [e]) = c := by
    rw [after_snoc, hw]
    rfl
  have htail : after write c post = c :=
    after_const (fun d hd x hx => by simp [hpost d hd] at hx) (Or.inl rfl)
  rw [List.append_cons, after_append, hhead, htail]

/-- A register that has changed has a last write. -/
theorem exists_last_write {log : List ε} (h : after write b log ≠ b) :
    ∃ pre e post, log = pre ++ e :: post ∧ write e = some (after write b log) ∧
      ∀ d ∈ post, write d = none := by
  induction log using List.reverseRecOn with
  | nil => exact absurd rfl h
  | append_singleton log e ih =>
      rw [after_snoc] at h ⊢
      cases hw : write e with
      | some x => exact ⟨log, e, [], rfl, hw, fun d hd => by cases hd⟩
      | none =>
          -- the last write lies before `e`
          rw [hw] at h
          rcases ih h with ⟨pre, d, post, rfl, hd, hpost⟩
          refine ⟨pre, d, post ++ [e], by simp, by simpa using hd, ?_⟩
          intro d' hd'
          rcases List.mem_append.mp hd' with hold | hnew
          · exact hpost d' hold
          · exact List.mem_singleton.mp hnew ▸ hw

/-- A register that is not written is left alone. -/
theorem after_of_none {log : List ε} (h : ∀ e ∈ log, write e = none) : after write b log = b :=
  after_const (fun e he x hx => by simp [h e he] at hx) (Or.inl rfl)

/-- A place in a log with one more event is the new event or a place in the old log. -/
theorem of_snoc_eq_split {log pre post : List ε} {d e : ε} (h : log ++ [d] = pre ++ e :: post) :
    (pre = log ∧ e = d) ∨ ∃ post', post = post' ++ [d] ∧ log = pre ++ e :: post' := by
  rcases List.eq_nil_or_concat post with rfl | ⟨post', d', rfl⟩
  · obtain ⟨rfl, hlast⟩ := List.append_inj' h rfl
    exact Or.inl ⟨rfl, (List.head_eq_of_cons_eq hlast).symm⟩
  · have h' : log ++ [d] = (pre ++ e :: post') ++ [d'] := by simpa using h
    obtain ⟨rfl, hlast⟩ := List.append_inj' h' rfl
    obtain rfl := List.head_eq_of_cons_eq hlast
    exact Or.inr ⟨post', by simp, rfl⟩

end Register

import ShellWord.Run

/-!
# Running and relating computations

A computation is known by what `Run.exec` makes of a state, so every operation of the monad gets one
equation for `exec`.  `Run.Ensures I E x` says of one computation that it keeps its states in `I` and
fails with errors in `E` only.  Two computations over different states are compared through a relation
on the states: `Run.Related R x y` says that from related states `x` and `y` end with the same outcome
and in related states, also when the outcome is an error; in `Run.RelatedUnless` the first of them may
stop early instead, with an error of a given kind.

All of these are closed under everything that programs are built from.  The one asymmetric rule is
`get_bind`: the two sides see *different* states, so what follows `get` has to be related for every
related pair of them, and not for one common value.
-/

namespace ShellWord.Run

variable {σ τ ε δ α β : Type}

/-! ### Executing -/

/-- What follows a computation runs on its value and in the state it leaves; an error ends both. -/
theorem exec_bind (x : Run σ ε α) (f : α → Run σ ε β) (s : σ) :
    (x >>= f).exec s =
      match x.exec s with
      | (.ok a, t) => (f a).exec t
      | (.error e, t) => (.error e, t) := by
  rw [exec, ExceptT.run_bind, StateT.run_bind]
  rcases h : x.exec s with ⟨a | a, t⟩
  all_goals
    rw [exec] at h
    rw [h]
    rfl

theorem exec_bind_of_ok {x : Run σ ε α} {f : α → Run σ ε β} {s t : σ} {a : α}
    (h : x.exec s = (.ok a, t)) : (x >>= f).exec s = (f a).exec t := by
  rw [exec_bind, h]

theorem exec_bind_of_error {x : Run σ ε α} {f : α → Run σ ε β} {s t : σ} {e : ε}
    (h : x.exec s = (.error e, t)) : (x >>= f).exec s = (.error e, t) := by
  rw [exec_bind, h]

/-- What holds of two computations in a row, from what holds of the first one: an error has to keep it, and
for a value the second one has to give it. -/
theorem bind_rule {x : Run σ ε α} {f : α → Run σ ε β} {s : σ} {P : Except ε α → σ → Prop}
    {Q : Except ε β → σ → Prop} (first : P (x.exec s).1 (x.exec s).2)
    (onError : ∀ e t, P (.error e) t → Q (.error e) t)
    (onValue : ∀ a t, P (.ok a) t → Q ((f a).exec t).1 ((f a).exec t).2) :
    Q ((x >>= f).exec s).1 ((x >>= f).exec s).2 := by
  rcases ran : x.exec s with ⟨e | a, t⟩ <;> rw [ran] at first
  · rw [exec_bind_of_error ran]
    exact onError e t first
  · rw [exec_bind_of_ok ran]
    exact onValue a t first

/-- Two computations in a row succeed only if both do. -/
theorem exec_bind_eq_ok_iff {x : Run σ ε α} {f : α → Run σ ε β} {s u : σ} {b : β} :
    (x >>= f).exec s = (.ok b, u) ↔
      ∃ a t, x.exec s = (.ok a, t) ∧ (f a).exec t = (.ok b, u) := by
  rw [exec_bind]
  rcases x.exec s with ⟨e | a, t⟩
  · simp
  · constructor
    · intro h
      exact ⟨a, t, rfl, h⟩
    · rintro ⟨_, _, same, h⟩
      obtain ⟨rfl, rfl⟩ : a = _ ∧ t = _ := by simpa using same
      exact h

/-- The error of two computations in a row is the error of one of them. -/
theorem exec_bind_eq_error_iff {x : Run σ ε α} {f : α → Run σ ε β} {s u : σ} {e : ε} :
    (x >>= f).exec s = (.error e, u) ↔
      x.exec s = (.error e, u) ∨ ∃ a t, x.exec s = (.ok a, t) ∧ (f a).exec t = (.error e, u) := by
  rw [exec_bind]
  rcases x.exec s with ⟨e' | a, t⟩
  · simp
  · constructor
    · intro h
      exact .inr ⟨a, t, rfl, h⟩
    · rintro (same | ⟨_, _, same, h⟩)
      · cases same
      · obtain ⟨rfl, rfl⟩ : a = _ ∧ t = _ := by simpa using same
        exact h

@[simp] theorem exec_get (s : σ) : (get : Run σ ε σ).exec s = (.ok s, s) := rfl

@[simp] theorem exec_modify (f : σ → σ) (s : σ) :
    (modify f : Run σ ε PUnit).exec s = (.ok ⟨⟩, f s) := rfl

/-- A handler runs in the state that the failed computation leaves. -/
theorem exec_tryCatch (x : Run σ ε α) (handler : ε → Run σ ε α) (s : σ) :
    (tryCatch x handler).exec s =
      match x.exec s with
      | (.ok a, t) => (.ok a, t)
      | (.error e, t) => (handler e).exec t := by
  rw [exec, ExceptT.run_tryCatch, StateT.run_bind]
  rcases h : x.exec s with ⟨a | a, t⟩
  all_goals
    rw [exec] at h
    rw [h]
    rfl

/-- A computation on a part of the state changes that part only.  Which computation it is may depend
on the whole state. -/
theorem exec_within (view : σ → τ) (update : τ → σ → σ) (onError : δ → ε) (x : σ → Run τ δ α)
    (s : σ) :
    exec (fun s => within view update onError (x s) s) s =
      (((x s).exec (view s)).1.mapError onError, update ((x s).exec (view s)).2 s) := by
  show within view update onError (x s) s = _
  unfold within
  rcases (x s).exec (view s) with ⟨a | a, t⟩ <;> rfl

/-- Computations that do the same from every state are equal. -/
theorem ext {x y : Run σ ε α} (h : ∀ s, x.exec s = y.exec s) : x = y :=
  funext h

/-! ### Maintaining -/

/-- From states in `I` the computation ends in a state in `I`, and its errors are in `E`. -/
def Ensures (I : σ → Prop) (E : ε → Prop) (x : Run σ ε α) : Prop :=
  ∀ ⦃s : σ⦄, I s → I (x.exec s).2 ∧ ∀ e, (x.exec s).1 = .error e → E e

namespace Ensures

variable {I : σ → Prop} {E : ε → Prop}

theorem pure (a : α) : Ensures I E (Pure.pure a : Run σ ε α) := by
  intro s holds
  exact ⟨holds, nofun⟩

theorem throw {e : ε} (h : E e) : Ensures I E (MonadExcept.throw e : Run σ ε α) := by
  intro s holds
  refine ⟨holds, fun e' same => ?_⟩
  exact Except.error.inj same ▸ h

theorem bind {x : Run σ ε α} {f : α → Run σ ε β} (hx : Ensures I E x)
    (hf : ∀ a, Ensures I E (f a)) : Ensures I E (x >>= f) := by
  intro s holds
  obtain ⟨after, errors⟩ := hx holds
  rcases ran : x.exec s with ⟨e | a, t⟩ <;> rw [ran] at after errors
  · rw [exec_bind_of_error ran]
    refine ⟨after, fun e' same => errors e' ?_⟩
    exact congrArg Except.error (Except.error.inj same)
  · rw [exec_bind_of_ok ran]
    exact hf a after

/-- What follows `get` only has to be right for states in `I`. -/
theorem get_bind {f : σ → Run σ ε β} (h : ∀ s, I s → Ensures I E (f s)) :
    Ensures I E ((get : Run σ ε σ) >>= f) := by
  intro s holds
  rw [exec_bind]
  exact h s holds holds

theorem modify {f : σ → σ} (h : ∀ s, I s → I (f s)) :
    Ensures I E (modify f : Run σ ε PUnit) := by
  intro s holds
  exact ⟨h s holds, nofun⟩

theorem total {f : σ → α × σ} (h : ∀ s, I s → I (f s).2) : Ensures I E (total f : Run σ ε α) := by
  intro s holds
  exact ⟨h s holds, nofun⟩

theorem tryCatch {x : Run σ ε α} {f : ε → Run σ ε α} (hx : Ensures I E x)
    (hf : ∀ e, E e → Ensures I E (f e)) : Ensures I E (tryCatch x f) := by
  intro s holds
  obtain ⟨after, errors⟩ := hx holds
  rw [exec_tryCatch]
  rcases ran : x.exec s with ⟨e | a, t⟩ <;> rw [ran] at after errors
  · exact hf e (errors e rfl) after
  · exact ⟨after, nofun⟩

/-- Errors may be turned into others. -/
theorem mapError {D : δ → Prop} {onError : δ → ε} {x : Run σ δ α} (hx : Ensures I D x)
    (h : ∀ d, D d → E (onError d)) : Ensures I E (within id (fun s _ => s) onError x) := by
  intro s holds
  have outcome := exec_within id (fun s _ => s) onError (fun _ => x) s
  obtain ⟨after, errors⟩ := hx holds
  rw [outcome]
  refine ⟨after, fun e failed => ?_⟩
  change (x.exec s).1.mapError onError = .error e at failed
  cases here : (x.exec s).1 with
  | error d =>
      rw [here] at failed
      exact Except.error.inj failed ▸ h d (errors d here)
  | ok a =>
      rw [here] at failed
      cases failed

end Ensures

/-! ### Relating -/

/-- From related states both computations end alike, and in related states, unless the first one fails
with an error in `Stop`. -/
def RelatedUnless (Stop : ε → Prop) (R : σ → τ → Prop) (x : Run σ ε α) (y : Run τ ε α) : Prop :=
  ∀ ⦃s : σ⦄ ⦃t : τ⦄, R s t →
    (x.exec s).1 = (y.exec t).1 ∧ R (x.exec s).2 (y.exec t).2 ∨
      ∃ e, Stop e ∧ (x.exec s).1 = .error e

namespace RelatedUnless

variable {Stop : ε → Prop} {R : σ → τ → Prop}

theorem pure (a : α) :
    RelatedUnless Stop R (Pure.pure a : Run σ ε α) (Pure.pure a : Run τ ε α) := by
  intro s t related
  exact .inl ⟨rfl, related⟩

theorem throw (e : ε) : RelatedUnless Stop R (MonadExcept.throw e : Run σ ε α)
    (MonadExcept.throw e : Run τ ε α) := by
  intro s t related
  exact .inl ⟨rfl, related⟩

theorem bind {x : Run σ ε α} {y : Run τ ε α} {f : α → Run σ ε β} {g : α → Run τ ε β}
    (hx : RelatedUnless Stop R x y) (hf : ∀ a, RelatedUnless Stop R (f a) (g a)) :
    RelatedUnless Stop R (x >>= f) (y >>= g) := by
  intro s t related
  rw [exec_bind, exec_bind]
  rcases hs : x.exec s with ⟨a, s'⟩
  rcases ht : y.exec t with ⟨b, t'⟩
  have first := hx related
  rw [hs, ht] at first
  rcases first with ⟨outcome, states⟩ | ⟨e, stop, failed⟩
  · obtain rfl : a = b := outcome
    cases a with
    | error e => exact .inl ⟨rfl, states⟩
    | ok a => exact hf a states
  · obtain rfl : a = .error e := failed
    exact .inr ⟨e, stop, rfl⟩

/-- The two sides see different states, which are related. -/
theorem get_bind {f : σ → Run σ ε β} {g : τ → Run τ ε β}
    (h : ∀ s t, R s t → RelatedUnless Stop R (f s) (g t)) :
    RelatedUnless Stop R ((get : Run σ ε σ) >>= f) ((get : Run τ ε τ) >>= g) := by
  intro s t related
  rw [exec_bind, exec_bind]
  exact h s t related related

theorem modify {f : σ → σ} {g : τ → τ} (h : ∀ s t, R s t → R (f s) (g t)) :
    RelatedUnless Stop R (modify f : Run σ ε PUnit) (modify g : Run τ ε PUnit) := by
  intro s t related
  exact .inl ⟨rfl, h s t related⟩

/-- A step on both sides, with the same value. -/
theorem total {f : σ → α × σ} {g : τ → α × τ}
    (h : ∀ s t, R s t → (f s).1 = (g t).1 ∧ R (f s).2 (g t).2) :
    RelatedUnless Stop R (total f : Run σ ε α) (total g : Run τ ε α) := by
  intro s t related
  obtain ⟨value, states⟩ := h s t related
  exact .inl ⟨congrArg Except.ok value, states⟩

/-- Where the first side stops, the handler has to let the error through. -/
theorem tryCatch {x : Run σ ε α} {y : Run τ ε α} {f : ε → Run σ ε α} {g : ε → Run τ ε α}
    (hx : RelatedUnless Stop R x y) (hf : ∀ e, RelatedUnless Stop R (f e) (g e))
    (stops : ∀ e, Stop e → f e = MonadExcept.throw e) :
    RelatedUnless Stop R (tryCatch x f) (tryCatch y g) := by
  intro s t related
  rw [exec_tryCatch, exec_tryCatch]
  rcases hs : x.exec s with ⟨a, s'⟩
  rcases ht : y.exec t with ⟨b, t'⟩
  have first := hx related
  rw [hs, ht] at first
  rcases first with ⟨outcome, states⟩ | ⟨e, stop, failed⟩
  · obtain rfl : a = b := outcome
    cases a with
    | error e => exact hf e states
    | ok a => exact .inl ⟨rfl, states⟩
  · obtain rfl : a = .error e := failed
    refine .inr ⟨e, stop, ?_⟩
    show ((f e).exec s').1 = .error e
    rw [stops e stop]
    rfl

/-- Errors may be turned into others, in the same way on both sides. -/
theorem mapError (onError : δ → ε) {x : Run σ δ α} {y : Run τ δ α}
    (h : RelatedUnless (fun _ => False) R x y) :
    RelatedUnless Stop R (within id (fun s _ => s) onError x)
      (within id (fun t _ => t) onError y) := by
  intro s t related
  have here := exec_within id (fun s _ => s) onError (fun _ => x) s
  have there := exec_within id (fun t _ => t) onError (fun _ => y) t
  rw [here, there]
  rcases h related with ⟨outcome, states⟩ | ⟨e, stop, -⟩
  · exact .inl ⟨congrArg (Except.mapError onError) outcome, states⟩
  · exact stop.elim

end RelatedUnless

/-- From related states both computations end alike, and in related states. -/
def Related (R : σ → τ → Prop) (x : Run σ ε α) (y : Run τ ε α) : Prop :=
  ∀ ⦃s : σ⦄ ⦃t : τ⦄, R s t → (x.exec s).1 = (y.exec t).1 ∧ R (x.exec s).2 (y.exec t).2

/-- Being related is being related unless an error occurs that never does. -/
theorem related_iff_relatedUnless {R : σ → τ → Prop} {x : Run σ ε α} {y : Run τ ε α} :
    Related R x y ↔ RelatedUnless (fun _ => False) R x y := by
  simp [Related, RelatedUnless]

namespace Related

variable {R : σ → τ → Prop}

theorem relatedUnless {Stop : ε → Prop} {x : Run σ ε α} {y : Run τ ε α} (h : Related R x y) :
    RelatedUnless Stop R x y :=
  fun _ _ related => .inl (h related)

theorem pure (a : α) : Related R (Pure.pure a : Run σ ε α) (Pure.pure a : Run τ ε α) :=
  related_iff_relatedUnless.2 (.pure a)

theorem throw (e : ε) :
    Related R (MonadExcept.throw e : Run σ ε α) (MonadExcept.throw e : Run τ ε α) :=
  related_iff_relatedUnless.2 (.throw e)

theorem modify {f : σ → σ} {g : τ → τ} (h : ∀ s t, R s t → R (f s) (g t)) :
    Related R (modify f : Run σ ε PUnit) (modify g : Run τ ε PUnit) :=
  related_iff_relatedUnless.2 (.modify h)

theorem total {f : σ → α × σ} {g : τ → α × τ}
    (h : ∀ s t, R s t → (f s).1 = (g t).1 ∧ R (f s).2 (g t).2) :
    Related R (total f : Run σ ε α) (total g : Run τ ε α) :=
  related_iff_relatedUnless.2 (.total h)

theorem bind {x : Run σ ε α} {y : Run τ ε α} {f : α → Run σ ε β} {g : α → Run τ ε β}
    (hx : Related R x y) (hf : ∀ a, Related R (f a) (g a)) : Related R (x >>= f) (y >>= g) :=
  related_iff_relatedUnless.2 <|
    .bind (related_iff_relatedUnless.1 hx) fun a => related_iff_relatedUnless.1 (hf a)

/-- Computations that are related by equality are equal. -/
theorem eq {x y : Run σ ε α} (h : Related Eq x y) : x = y := by
  apply ext
  intro s
  exact Prod.ext (h rfl).1 (h rfl).2

end Related

end ShellWord.Run

import Mathlib.Tactic.Common

/-!
# Actions that may raise

An action on a state returns a value or raises, and in both cases leaves a
state. What every step of an action keeps, the whole action keeps.
-/

namespace Actions

variable {ε σ α β : Type}

def after (x : EStateM ε σ α) (s : σ) : σ :=
  match x s with
  | .ok _ s' => s'
  | .error _ s' => s'

variable {x : EStateM ε σ α}

theorem after_of_ok {s s' : σ} {a : α} (h : x s = .ok a s') : after x s = s' := by
  unfold after
  rw [h]

theorem after_of_error {s s' : σ} {e : ε} (h : x s = .error e s') :
    after x s = s' := by
  unfold after
  rw [h]

theorem bind_ok {s s' : σ} {a : α} (h : x s = .ok a s') (f : α → EStateM ε σ β) :
    (x >>= f) s = f a s' := by
  change (match x s with
    | .ok a s => f a s
    | .error e s => .error e s) = _
  rw [h]

theorem bind_error {s s' : σ} {e : ε} (h : x s = .error e s')
    (f : α → EStateM ε σ β) : (x >>= f) s = .error e s' := by
  change (match x s with
    | .ok a s => f a s
    | .error e s => .error e s) = _
  rw [h]

theorem after_bind {s s' : σ} {a : α} (h : x s = .ok a s') (f : α → EStateM ε σ β) :
    after (x >>= f) s = after (f a) s' := by
  unfold after
  rw [bind_ok h]

theorem of_bind_ok {f : α → EStateM ε σ β} {s s' : σ} {b : β}
    (h : (x >>= f) s = .ok b s') : ∃ a t, x s = .ok a t ∧ f a t = .ok b s' := by
  cases hx : x s with
  | ok a t =>
    rw [bind_ok hx] at h
    exact ⟨a, t, rfl, h⟩
  | error e t =>
    rw [bind_error hx] at h
    cases h

theorem bind_throw (x : EStateM ε σ α) (e : ε) (s : σ) :
    ∃ e', (x >>= fun _ => (throw e : EStateM ε σ β)) s = .error e' (after x s) := by
  cases h : x s with
  | ok a t =>
    rw [after_of_ok h]
    exact ⟨e, bind_ok h _⟩
  | error e' t =>
    rw [after_of_error h]
    exact ⟨e', bind_error h _⟩

def zoom {τ : Type} (part : σ → τ) (replace : σ → τ → σ) (x : EStateM ε τ α) : EStateM ε σ α := fun s =>
  match x (part s) with
  | .ok a t => .ok a (replace s t)
  | .error e t => .error e (replace s t)

section Zoom

variable {τ : Type} {part : σ → τ} {replace : σ → τ → σ} {x : EStateM ε τ α} {s : σ} {t : τ}

theorem zoom_ok {a : α} (h : x (part s) = .ok a t) : zoom part replace x s = .ok a (replace s t) := by
  unfold zoom
  rw [h]

theorem zoom_error {e : ε} (h : x (part s) = .error e t) : zoom part replace x s = .error e (replace s t) := by
  unfold zoom
  rw [h]

theorem after_zoom (s : σ) : after (zoom part replace x) s = replace s (after x (part s)) := by
  unfold after zoom
  cases x (part s) with
  | ok a t => rfl
  | error e t => rfl

end Zoom

def Keeps (R : σ → σ → Prop) (x : EStateM ε σ α) : Prop := ∀ s, R s (after x s)

namespace Keeps

variable {R : σ → σ → Prop}

theorem ret (hrefl : ∀ s, R s s) (a : α) : Keeps R (pure a : EStateM ε σ α) := hrefl

theorem raise (hrefl : ∀ s, R s s) (e : ε) : Keeps R (throw e : EStateM ε σ α) := hrefl

theorem update {f : σ → σ} (h : ∀ s, R s (f s)) : Keeps R (modify f : EStateM ε σ PUnit) := h

theorem seq (htrans : ∀ s t u, R s t → R t u → R s u) {x : EStateM ε σ α} {f : α → EStateM ε σ β}
    (hx : Keeps R x) (hf : ∀ a, Keeps R (f a)) : Keeps R (x >>= f) := by
  intro s
  have hfirst := hx s
  cases h : x s with
  | ok a t =>
    rw [after_of_ok h] at hfirst
    have hrest := hf a t
    unfold after at hrest ⊢
    rw [bind_ok h]
    exact htrans _ _ _ hfirst hrest
  | error e t =>
    rw [after_of_error h] at hfirst
    rw [after_of_error (bind_error h f)]
    exact hfirst

theorem read {f : σ → EStateM ε σ β} (h : ∀ s, R s (after (f s) s)) :
    Keeps R (get >>= f : EStateM ε σ β) := h

end Keeps

/-- `try` with an `except` that goes on without a value. What the action did to
the state before it raised stays done. -/
def attempt (x : EStateM ε σ α) : EStateM ε σ (Option α) := fun s =>
  match x s with
  | .ok a t => .ok (some a) t
  | .error _ t => .ok none t

theorem attempt_ok {s t : σ} {a : α} (h : x s = .ok a t) :
    attempt x s = .ok (some a) t := by
  unfold attempt
  rw [h]

theorem attempt_error {s t : σ} {e : ε} (h : x s = .error e t) :
    attempt x s = .ok none t := by
  unfold attempt
  rw [h]

theorem of_attempt_some {s t : σ} {a : α} (h : attempt x s = .ok (some a) t) :
    x s = .ok a t := by
  cases hx : x s with
  | ok b u =>
    rw [attempt_ok hx] at h
    cases h
    rfl
  | error e u =>
    rw [attempt_error hx] at h
    cases h

/-- From `s` the action returns as `Q` says, or raises and leaves a state as `E` says. -/
def Meets (x : EStateM ε σ α) (s : σ) (Q : α → σ → Prop) (E : σ → Prop) : Prop :=
  match x s with
  | .ok a t => Q a t
  | .error _ t => E t

namespace Meets

variable {x : EStateM ε σ α} {s : σ} {Q Q' : α → σ → Prop} {E E' : σ → Prop}

theorem ret {a : α} (h : Q a s) : Meets (pure a : EStateM ε σ α) s Q E := h

theorem of_ok {a : α} {t : σ} (h : Meets x s Q E) (hx : x s = .ok a t) : Q a t := by
  unfold Meets at h
  rwa [hx] at h

theorem of_error {e : ε} {t : σ} (h : Meets x s Q E) (hx : x s = .error e t) : E t := by
  unfold Meets at h
  rwa [hx] at h

theorem of_cases (hok : ∀ a t, x s = .ok a t → Q a t) (herror : ∀ e t, x s = .error e t → E t) :
    Meets x s Q E := by
  unfold Meets
  cases h : x s with
  | ok a t => exact hok a t h
  | error e t => exact herror e t h

theorem mono (h : Meets x s Q E) (hQ : ∀ a t, Q a t → Q' a t) (hE : ∀ t, E t → E' t) :
    Meets x s Q' E' :=
  of_cases (fun a t hx => hQ a t (h.of_ok hx)) fun _ t hx => hE t (h.of_error hx)

theorem traced (h : Meets x s Q E) : Meets x s (fun a t => x s = .ok a t ∧ Q a t) E :=
  of_cases (fun _ _ hx => ⟨hx, h.of_ok hx⟩) fun _ _ hx => h.of_error hx

theorem seq {f : α → EStateM ε σ β} {R : β → σ → Prop} (h : Meets x s Q E)
    (hf : ∀ a t, Q a t → Meets (f a) t R E) : Meets (x >>= f) s R E := by
  cases hx : x s with
  | ok a t =>
    unfold Meets
    rw [bind_ok hx]
    exact hf a t (h.of_ok hx)
  | error e t =>
    unfold Meets
    rw [bind_error hx]
    exact h.of_error hx

theorem read {f : σ → EStateM ε σ α} (h : Meets (f s) s Q E) : Meets (get >>= f : EStateM ε σ α) s Q E := h

theorem write {f : PUnit → EStateM ε σ α} {t : σ} (h : Meets (f ⟨⟩) t Q E) :
    Meets (set t >>= f : EStateM ε σ α) s Q E := h

theorem after {R : σ → Prop} (h : Meets x s (fun _ => R) R) : R (after x s) := by
  cases hx : x s with
  | ok a t =>
    rw [after_of_ok hx]
    exact h.of_ok hx
  | error e t =>
    rw [after_of_error hx]
    exact h.of_error hx

theorem of_after {R : σ → Prop} (h : R (Actions.after x s)) : Meets x s (fun _ => R) R :=
  of_cases (fun _ _ hx => after_of_ok hx ▸ h) fun _ _ hx => after_of_error hx ▸ h

end Meets

/-- `try` with an `except` that goes on with `handler`. -/
def rescue (x handler : EStateM ε σ α) : EStateM ε σ α := fun s =>
  match x s with
  | .ok a t => .ok a t
  | .error _ t => handler t

theorem rescue_ok {s t : σ} {a : α} (h : x s = .ok a t) (handler : EStateM ε σ α) :
    rescue x handler s = .ok a t := by
  unfold rescue
  rw [h]

theorem rescue_error {s t : σ} {e : ε} (h : x s = .error e t)
    (handler : EStateM ε σ α) : rescue x handler s = handler t := by
  unfold rescue
  rw [h]

theorem Meets.rescued {x handler : EStateM ε σ α} {s : σ} {Q : α → σ → Prop} {E E' : σ → Prop}
    (h : Meets x s Q E) (hhandler : ∀ t, E t → Meets handler t Q E') : Meets (rescue x handler) s Q E' := by
  cases hx : x s with
  | ok a t =>
    unfold Meets
    rw [rescue_ok hx]
    exact h.of_ok hx
  | error e t =>
    unfold Meets
    rw [rescue_error hx]
    exact hhandler t (h.of_error hx)

/-- From `s` the action returns, and its value and the state it leaves satisfy
`Q`. -/
def Ends (x : EStateM ε σ α) (s : σ) (Q : α → σ → Prop) : Prop := ∃ a t, x s = .ok a t ∧ Q a t

namespace Ends

variable {x : EStateM ε σ α} {s : σ} {Q Q' : α → σ → Prop} {R : β → σ → Prop}

theorem ret {a : α} (h : Q a s) : Ends (pure a : EStateM ε σ α) s Q := ⟨a, s, rfl, h⟩

theorem seq {f : α → EStateM ε σ β} (h : Ends x s fun a t => Ends (f a) t R) :
    Ends (x >>= f) s R := by
  obtain ⟨a, t, hx, b, u, hf, hR⟩ := h
  exact ⟨b, u, (bind_ok hx f).trans hf, hR⟩

theorem mono (h : Ends x s Q) (himp : ∀ a t, Q a t → Q' a t) : Ends x s Q' := by
  obtain ⟨a, t, hx, hQ⟩ := h
  exact ⟨a, t, hx, himp a t hQ⟩

theorem attempted {Q : Option α → σ → Prop} (hok : ∀ a t, x s = .ok a t → Q (some a) t)
    (herror : ∀ e t, x s = .error e t → Q none t) : Ends (attempt x) s Q := by
  cases h : x s with
  | ok a t => exact ⟨some a, t, attempt_ok h, hok a t h⟩
  | error e t => exact ⟨none, t, attempt_error h, herror e t h⟩

end Ends

/-- From every state the action returns a value that satisfies `P`. -/
def Yields (x : EStateM ε σ α) (P : α → Prop) : Prop := ∀ s, Ends x s fun a _ => P a

namespace Yields

variable {P P' : α → Prop} {R : β → Prop} {x : EStateM ε σ α}

theorem ret {a : α} (h : P a) : Yields (pure a : EStateM ε σ α) P := fun _ => .ret h

theorem seq {f : α → EStateM ε σ β} (hx : Yields x P) (hf : ∀ a, P a → Yields (f a) R) :
    Yields (x >>= f) R := fun s => .seq ((hx s).mono fun a t ha => hf a ha t)

theorem mono (h : Yields x P) (himp : ∀ a, P a → P' a) : Yields x P' :=
  fun s => (h s).mono fun a _ => himp a

theorem attempted (x : EStateM ε σ α) : Yields (attempt x) fun _ => True :=
  fun _ => .attempted (fun _ _ _ => trivial) fun _ _ _ => trivial

end Yields

end Actions

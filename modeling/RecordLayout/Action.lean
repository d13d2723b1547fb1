import RecordLayout.Trace

/-!
# Actions

An action on a state may fail. The state it leaves and the events on its way count in either case, so
that a run that fails half way shows what it did before.
-/

namespace RecordLayout

structure Outcome (σ ε α : Type) where
  result : Except ε α
  state : σ
  events : List Event

theorem Outcome.eq_of_result {σ ε α : Type} {o : Outcome σ ε α} {r : Except ε α} (h : o.result = r) :
    o = ⟨r, o.state, o.events⟩ := by
  subst h; rfl

theorem mapError_ok {ε ε' α : Type} (f : ε → ε') (x : α) :
    (Except.ok x : Except ε α).mapError f = .ok x := rfl

theorem mapError_error {ε ε' α : Type} (f : ε → ε') (e : ε) :
    (Except.error e : Except ε α).mapError f = .error (f e) := rfl

def Action (σ ε α : Type) : Type := σ → Outcome σ ε α

namespace Action

variable {σ τ ε ε' α β : Type}

def run (a : Action σ ε α) (s : σ) : Outcome σ ε α := a s

protected def pure (x : α) : Action σ ε α := fun s => ⟨.ok x, s, []⟩

protected def bind (a : Action σ ε α) (f : α → Action σ ε β) : Action σ ε β := fun s =>
  match a.run s with
  | ⟨.ok x, s', es⟩ =>
    let o := (f x).run s'
    ⟨o.result, o.state, es ++ o.events⟩
  | ⟨.error e, s', es⟩ => ⟨.error e, s', es⟩

instance : Monad (Action σ ε) where
  pure := Action.pure
  bind := Action.bind

def fail (e : ε) : Action σ ε α := fun s => ⟨.error e, s, []⟩

def state : Action σ ε σ := fun s => ⟨.ok s, s, []⟩

def update (f : σ → σ) : Action σ ε Unit := fun s => ⟨.ok (), f s, []⟩

def note (e : Event) : Action σ ε Unit := fun s => ⟨.ok (), s, [e]⟩

def log (level : Level) (component : Component) (message : String) : Action σ ε Unit :=
  note (.log ⟨level, component, message⟩)

def ofExcept (r : Except ε α) : Action σ ε α := fun s => ⟨r, s, []⟩

/-- The same action with its failure seen as another one. -/
def mapError (f : ε → ε') (a : Action σ ε α) : Action σ ε' α := fun s =>
  let o := a.run s
  ⟨o.result.mapError f, o.state, o.events⟩

/-- An action on one part of a larger state. -/
def within (part : τ → σ) (put : τ → σ → τ) (a : Action σ ε α) : Action τ ε α := fun t =>
  let o := a.run (part t)
  ⟨o.result, put t o.state, o.events⟩

@[simp] theorem run_pure (x : α) (s : σ) : (pure x : Action σ ε α).run s = ⟨.ok x, s, []⟩ := rfl

@[simp] theorem run_fail (e : ε) (s : σ) : (fail e : Action σ ε α).run s = ⟨.error e, s, []⟩ := rfl

theorem run_bind (a : Action σ ε α) (f : α → Action σ ε β) (s : σ) :
    (a >>= f).run s =
      match a.run s with
      | ⟨.ok x, s', es⟩ => ⟨((f x).run s').result, ((f x).run s').state, es ++ ((f x).run s').events⟩
      | ⟨.error e, s', es⟩ => ⟨.error e, s', es⟩ := rfl

@[simp] theorem run_state (s : σ) : (state : Action σ ε σ).run s = ⟨.ok s, s, []⟩ := rfl

@[simp] theorem run_update (f : σ → σ) (s : σ) :
    (update f : Action σ ε Unit).run s = ⟨.ok (), f s, []⟩ := rfl

@[simp] theorem run_note (e : Event) (s : σ) : (note e : Action σ ε Unit).run s = ⟨.ok (), s, [e]⟩ := rfl

@[simp] theorem run_log (level : Level) (component : Component) (message : String) (s : σ) :
    (log level component message : Action σ ε Unit).run s =
      ⟨.ok (), s, [.log ⟨level, component, message⟩]⟩ := rfl

@[simp] theorem run_ofExcept (r : Except ε α) (s : σ) : (ofExcept r).run s = ⟨r, s, []⟩ := rfl

@[simp] theorem run_mapError (f : ε → ε') (a : Action σ ε α) (s : σ) :
    (mapError f a).run s = ⟨(a.run s).result.mapError f, (a.run s).state, (a.run s).events⟩ := rfl

@[simp] theorem run_within (part : τ → σ) (put : τ → σ → τ) (a : Action σ ε α) (t : τ) :
    (within part put a).run t =
      ⟨(a.run (part t)).result, put t (a.run (part t)).state, (a.run (part t)).events⟩ := rfl

theorem run_bind_ok {a : Action σ ε α} {f : α → Action σ ε β} {s s' : σ} {x : α} {es : List Event}
    (h : a.run s = ⟨.ok x, s', es⟩) :
    (a >>= f).run s =
      ⟨((f x).run s').result, ((f x).run s').state, es ++ ((f x).run s').events⟩ := by
  rw [run_bind, h]

theorem run_bind_error {a : Action σ ε α} {f : α → Action σ ε β} {s s' : σ} {e : ε} {es : List Event}
    (h : a.run s = ⟨.error e, s', es⟩) : (a >>= f).run s = ⟨.error e, s', es⟩ := by
  rw [run_bind, h]

/-- The action asks for no size. -/
def Quiet (a : Action σ ε α) : Prop := ∀ s, askedTypes (a.run s).events = []

namespace Quiet

theorem pure (x : α) : Quiet (Pure.pure x : Action σ ε α) := fun _ => rfl

theorem fail (e : ε) : Quiet (Action.fail e : Action σ ε α) := fun _ => rfl

theorem state : Quiet (Action.state : Action σ ε σ) := fun _ => rfl

theorem update (f : σ → σ) : Quiet (Action.update f : Action σ ε Unit) := fun _ => rfl

theorem log (level : Level) (component : Component) (message : String) :
    Quiet (Action.log level component message : Action σ ε Unit) := fun _ => rfl

theorem shown (text : Bytes) : Quiet (note (.shown text) : Action σ ε Unit) := fun _ => rfl

theorem ofExcept (r : Except ε α) : Quiet (Action.ofExcept r : Action σ ε α) := fun _ => rfl

theorem mapError (f : ε → ε') {a : Action σ ε α} (h : a.Quiet) : (a.mapError f).Quiet := h

theorem within (part : τ → σ) (put : τ → σ → τ) {a : Action σ ε α} (h : a.Quiet) :
    (a.within part put).Quiet := fun t => h (part t)

theorem bind {a : Action σ ε α} {f : α → Action σ ε β} (ha : a.Quiet) (hf : ∀ x, (f x).Quiet) :
    (a >>= f).Quiet := by
  intro s
  have hs := ha s
  rw [run_bind]
  match h : a.run s with
  | ⟨.ok x, s', es⟩ =>
    rw [h] at hs
    show askedTypes (es ++ ((f x).run s').events) = []
    rw [askedTypes_append, hf x s', List.append_nil]
    exact hs
  | ⟨.error e, s', es⟩ => rw [h] at hs; exact hs

end Quiet

end Action

end RecordLayout

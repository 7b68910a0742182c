/-!
# Logs

Loading and saving tell what they do in a log. A logged computation gives its records in order and
a result; the records are kept when the result is an error.
-/

namespace Runbook

/-- How much a record matters. -/
inductive Level where
  | error
  | warn
  | info
  | debug
  deriving DecidableEq, Repr

def Level.name : Level → String
  | .error => "ERROR"
  | .warn => "WARN"
  | .info => "INFO"
  | .debug => "DEBUG"

/-- A line of the log. -/
structure LogRecord where
  level : Level
  text : String
  deriving DecidableEq, Repr

/-- A result, and the records written on the way to it. -/
structure Logged (ε : Type u) (α : Type v) where
  records : List LogRecord
  result : Except ε α

namespace Logged

variable {ε : Type u} {α β : Type v}

/-- The second computation goes on from the first one's value; an error ends both. -/
def bind (x : Logged ε α) (f : α → Logged ε β) : Logged ε β :=
  match x.result with
  | .ok a => ⟨x.records ++ (f a).records, (f a).result⟩
  | .error e => ⟨x.records, .error e⟩

instance : Monad (Logged ε) where
  pure a := ⟨[], .ok a⟩
  bind := bind

instance : MonadExcept ε (Logged ε) where
  throw e := ⟨[], .error e⟩
  tryCatch x h :=
    match x.result with
    | .ok _ => x
    | .error e => ⟨x.records ++ (h e).records, (h e).result⟩

def tell (rs : List LogRecord) : Logged ε PUnit :=
  ⟨rs, .ok ⟨⟩⟩

def log (level : Level) (text : String) : Logged ε PUnit :=
  tell [⟨level, text⟩]

/-- A result without records. -/
def ofExcept (x : Except ε α) : Logged ε α :=
  ⟨[], x⟩

/-- Another name for the errors. -/
def mapError {δ : Type u} (f : ε → δ) (x : Logged ε α) : Logged δ α :=
  ⟨x.records, x.result.mapError f⟩

@[simp] theorem result_pure (a : α) : (pure a : Logged ε α).result = .ok a := rfl

@[simp] theorem records_pure (a : α) : (pure a : Logged ε α).records = [] := rfl

@[simp] theorem result_bind (x : Logged ε α) (f : α → Logged ε β) :
    (x >>= f).result = x.result.bind fun a => (f a).result := by
  show (bind x f).result = _
  unfold bind
  cases x.result <;> rfl

@[simp] theorem result_tell (rs : List LogRecord) :
    (tell rs : Logged ε PUnit).result = .ok ⟨⟩ := rfl

@[simp] theorem result_ofExcept (x : Except ε α) : (ofExcept x).result = x := rfl

instance : LawfulMonad (Logged ε) := by
  refine LawfulMonad.mk' (Logged ε) ?_ ?_ ?_
  · rintro _ ⟨rs, r⟩
    cases r <;> simp [Functor.map, bind]
  · intros
    simp [Bind.bind, Pure.pure, bind]
  · rintro _ _ _ ⟨rs, r⟩ f g
    cases r with
    | error e => rfl
    | ok a =>
      simp only [Bind.bind, bind]
      cases (f a).result <;> simp

@[simp] theorem result_map (f : α → β) (x : Logged ε α) : (f <$> x).result = x.result.map f := by
  rw [map_eq_pure_bind, result_bind]
  cases x.result <;> rfl

@[simp] theorem result_mapError {δ : Type u} (f : ε → δ) (x : Logged ε α) :
    (mapError f x).result = x.result.mapError f := rfl

@[simp] theorem result_throw (e : ε) : (throw e : Logged ε α).result = .error e := rfl

@[simp] theorem result_log (level : Level) (text : String) :
    (log level text : Logged ε PUnit).result = .ok ⟨⟩ := rfl

end Logged

end Runbook

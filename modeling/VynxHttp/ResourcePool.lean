import Mathlib.Logic.Function.Basic
import Mathlib.Tactic.Common

/-!
# Pools of numbered resources

A pool holds at most one resource under each key.  Resources are numbered in
the order in which they are opened, and a log tells, latest event first, what
has been done with them.  What is known of a held resource may depend on its
own events only; `Inv` keeps such knowledge through every operation, because no
resource is ever held under two keys.
-/

namespace VynxHttp.ResourcePool

variable {κ δ ε : Type*}

structure Pool (κ δ ε : Type*) where
  held : κ → Option δ
  opened : ℕ
  log : List ε

/-! ## Histories -/

def history (about : ε → Option ℕ) (i : ℕ) (log : List ε) : List ε :=
  log.filter fun event => about event = some i

@[simp] theorem mem_history {about : ε → Option ℕ} {i : ℕ} {log : List ε}
    {event : ε} :
    event ∈ history about i log ↔ event ∈ log ∧ about event = some i := by
  simp [history]

@[simp] theorem history_cons_same {about : ε → Option ℕ} {i : ℕ}
    {log : List ε} {event : ε} (habout : about event = some i) :
    history about i (event :: log) = event :: history about i log := by
  simp [history, habout]

@[simp] theorem history_cons_other {about : ε → Option ℕ} {i : ℕ}
    {log : List ε} {event : ε} (habout : about event ≠ some i) :
    history about i (event :: log) = history about i log := by
  simp [history, habout]

/-! ## Operations -/

namespace Pool

def record (pool : Pool κ δ ε) (event : ε) : Pool κ δ ε :=
  { pool with log := event :: pool.log }

def next (pool : Pool κ δ ε) : Pool κ δ ε :=
  { pool with opened := pool.opened + 1 }

def put [DecidableEq κ] (pool : Pool κ δ ε) (key : κ) (entry : δ) :
    Pool κ δ ε :=
  { pool with held := Function.update pool.held key (some entry) }

def drop [DecidableEq κ] (pool : Pool κ δ ε) (key : κ) : Pool κ δ ε :=
  { pool with held := Function.update pool.held key none }

/-- Drop the resources which do not pass a test. -/
def keep (pool : Pool κ δ ε) (test : δ → Bool) : Pool κ δ ε :=
  { pool with held := fun key => (pool.held key).filter test }

end Pool

/-! ## The invariant -/

/-- `idOf` numbers the entries, `about` the resource an event is about, and
`Good` is what is known of an entry from the history of its resource. -/
structure Inv (idOf : δ → ℕ) (about : ε → Option ℕ)
    (Good : κ → δ → List ε → Prop) (pool : Pool κ δ ε) : Prop where
  held_lt : ∀ key entry, pool.held key = some entry →
    idOf entry < pool.opened
  distinct : ∀ key key' entry entry', pool.held key = some entry →
    pool.held key' = some entry' → idOf entry = idOf entry' → key = key'
  logged_lt : ∀ event ∈ pool.log, ∀ i, about event = some i →
    i < pool.opened
  good : ∀ key entry, pool.held key = some entry →
    Good key entry (history about (idOf entry) pool.log)

def Pool.Unheld (pool : Pool κ δ ε) (idOf : δ → ℕ) (i : ℕ) : Prop :=
  ∀ key entry, pool.held key = some entry → idOf entry ≠ i

variable {idOf : δ → ℕ} {about : ε → Option ℕ}
  {Good : κ → δ → List ε → Prop} {pool : Pool κ δ ε}

theorem Inv.empty (held_none : ∀ key, pool.held key = none)
    (log_nil : pool.log = []) : Inv idOf about Good pool where
  held_lt := by simp [held_none]
  distinct := by simp [held_none]
  logged_lt := by simp [log_nil]
  good := by simp [held_none]

theorem Inv.history_next (hinv : Inv idOf about Good pool) :
    history about pool.opened pool.log = [] := by
  rw [history, List.filter_eq_nil_iff]
  intro event hmem habout
  exact absurd (hinv.logged_lt event hmem _ (by simpa using habout))
    (Nat.lt_irrefl _)

/-- An event about no resource. -/
theorem Inv.record_none (hinv : Inv idOf about Good pool) {event : ε}
    (habout : about event = none) :
    Inv idOf about Good (pool.record event) where
  held_lt := hinv.held_lt
  distinct := hinv.distinct
  logged_lt := by
    intro other hmem i hi
    rcases List.mem_cons.mp hmem with rfl | hmem
    · simp [habout] at hi
    · exact hinv.logged_lt other hmem i hi
  good := by
    intro key entry hheld
    rw [Pool.record, history_cons_other (by simp [habout])]
    exact hinv.good key entry hheld

/-- An event about a resource which is not held. -/
theorem Inv.record_unheld (hinv : Inv idOf about Good pool) (event : ε)
    {i : ℕ} (habout : about event = some i) (hlt : i < pool.opened)
    (hunheld : pool.Unheld idOf i) :
    Inv idOf about Good (pool.record event) where
  held_lt := hinv.held_lt
  distinct := hinv.distinct
  logged_lt := by
    intro other hmem j hj
    rcases List.mem_cons.mp hmem with rfl | hmem
    · rw [habout, Option.some.injEq] at hj
      exact hj ▸ hlt
    · exact hinv.logged_lt other hmem j hj
  good := by
    intro key entry hheld
    have hother : about event ≠ some (idOf entry) := by
      rw [habout, ne_eq, Option.some.injEq]
      exact fun h => hunheld key entry hheld h.symm
    rw [Pool.record, history_cons_other hother]
    exact hinv.good key entry hheld

/-- An event about a held resource, after which it is still known to be
good. -/
theorem Inv.record_held (hinv : Inv idOf about Good pool) {event : ε}
    {key : κ} {entry : δ} (hheld : pool.held key = some entry)
    (habout : about event = some (idOf entry))
    (hgood : Good key entry
      (event :: history about (idOf entry) pool.log)) :
    Inv idOf about Good (pool.record event) where
  held_lt := hinv.held_lt
  distinct := hinv.distinct
  logged_lt := by
    intro other hmem j hj
    rcases List.mem_cons.mp hmem with rfl | hmem
    · rw [habout, Option.some.injEq] at hj
      exact hj ▸ hinv.held_lt key entry hheld
    · exact hinv.logged_lt other hmem j hj
  good := by
    intro key' entry' hheld'
    by_cases hsame : idOf entry = idOf entry'
    · have hkey := hinv.distinct key key' entry entry' hheld hheld' hsame
      subst hkey
      have hentry := hheld.symm.trans hheld'
      rw [Option.some.injEq] at hentry
      subst hentry
      rw [Pool.record, history_cons_same habout]
      exact hgood
    · have hother : about event ≠ some (idOf entry') := by
        rw [habout, ne_eq, Option.some.injEq]
        exact hsame
      rw [Pool.record, history_cons_other hother]
      exact hinv.good key' entry' hheld'

theorem Inv.next (hinv : Inv idOf about Good pool) :
    Inv idOf about Good pool.next where
  held_lt := fun key entry hheld =>
    Nat.lt_succ_of_lt (hinv.held_lt key entry hheld)
  distinct := hinv.distinct
  logged_lt := fun event hmem i hi =>
    Nat.lt_succ_of_lt (hinv.logged_lt event hmem i hi)
  good := hinv.good

theorem Inv.unheld_next (hinv : Inv idOf about Good pool) :
    pool.next.Unheld idOf pool.opened :=
  fun key entry hheld => Nat.ne_of_lt (hinv.held_lt key entry hheld)

theorem Inv.keep (hinv : Inv idOf about Good pool) (test : δ → Bool) :
    Inv idOf about Good (pool.keep test) := by
  have hkept : ∀ {key entry}, (pool.keep test).held key = some entry →
      pool.held key = some entry := fun h => (Option.filter_eq_some_iff.mp h).1
  exact
    { held_lt := fun key entry hheld => hinv.held_lt key entry (hkept hheld)
      distinct := fun key key' entry entry' hheld hheld' =>
        hinv.distinct key key' entry entry' (hkept hheld) (hkept hheld')
      logged_lt := hinv.logged_lt
      good := fun key entry hheld => hinv.good key entry (hkept hheld) }

variable [DecidableEq κ]

theorem held_drop {key key' : κ} {entry : δ}
    (hheld : (pool.drop key).held key' = some entry) :
    key' ≠ key ∧ pool.held key' = some entry := by
  by_cases hkey : key' = key
  · simp [Pool.drop, hkey] at hheld
  · simpa [Pool.drop, hkey] using hheld

theorem Inv.drop (hinv : Inv idOf about Good pool) (key : κ) :
    Inv idOf about Good (pool.drop key) where
  held_lt := fun key' entry hheld =>
    hinv.held_lt key' entry (held_drop hheld).2
  distinct := fun key' key'' entry entry' hheld hheld' =>
    hinv.distinct key' key'' entry entry' (held_drop hheld).2
      (held_drop hheld').2
  logged_lt := hinv.logged_lt
  good := fun key' entry hheld => hinv.good key' entry (held_drop hheld).2

/-- A dropped resource is not held under another key. -/
theorem Inv.unheld_drop (hinv : Inv idOf about Good pool) {key : κ}
    {entry : δ} (hheld : pool.held key = some entry) :
    (pool.drop key).Unheld idOf (idOf entry) := by
  intro key' entry' hheld' hsame
  obtain ⟨hkey, hheld'⟩ := held_drop hheld'
  exact hkey (hinv.distinct key' key entry' entry hheld' hheld hsame)

/-- A resource enters the pool, or its entry is replaced. -/
theorem Inv.put (hinv : Inv idOf about Good pool) (key : κ) (entry : δ)
    (hlt : idOf entry < pool.opened)
    (hunheld : (pool.drop key).Unheld idOf (idOf entry))
    (hgood : Good key entry (history about (idOf entry) pool.log)) :
    Inv idOf about Good (pool.put key entry) := by
  have hput : ∀ {key' entry'}, (pool.put key entry).held key' = some entry' →
      key' = key ∧ entry' = entry ∨
        key' ≠ key ∧ pool.held key' = some entry' ∧
          idOf entry' ≠ idOf entry := by
    intro key' entry' hheld
    by_cases hkey : key' = key
    · subst hkey
      simp only [Pool.put, Function.update_self, Option.some.injEq] at hheld
      exact .inl ⟨rfl, hheld.symm⟩
    · simp only [Pool.put, Function.update_of_ne hkey] at hheld
      refine .inr ⟨hkey, hheld, hunheld key' entry' ?_⟩
      simpa [Pool.drop, hkey] using hheld
  constructor
  · intro key' entry' hheld
    rcases hput hheld with ⟨rfl, rfl⟩ | ⟨_, hheld, _⟩
    · exact hlt
    · exact hinv.held_lt key' entry' hheld
  · intro key' key'' entry' entry'' hheld hheld' hsame
    rcases hput hheld with ⟨rfl, rfl⟩ | ⟨_, hheld, hne⟩ <;>
      rcases hput hheld' with ⟨rfl, rfl⟩ | ⟨_, hheld', hne'⟩
    · rfl
    · exact absurd hsame.symm hne'
    · exact absurd hsame hne
    · exact hinv.distinct _ _ _ _ hheld hheld' hsame
  · exact hinv.logged_lt
  · intro key' entry' hheld
    rcases hput hheld with ⟨rfl, rfl⟩ | ⟨_, hheld, _⟩
    · exact hgood
    · exact hinv.good key' entry' hheld

/-- A held resource gets a new entry together with an event about it. -/
theorem Inv.touch (hinv : Inv idOf about Good pool) (entry' : δ) (event : ε)
    {key : κ} {entry : δ} (hheld : pool.held key = some entry)
    (hsame : idOf entry' = idOf entry)
    (habout : about event = some (idOf entry))
    (hgood : Good key entry'
      (event :: history about (idOf entry) pool.log)) :
    Inv idOf about Good ((pool.put key entry').record event) := by
  have hlt := hinv.held_lt key entry hheld
  have hunheld := hinv.unheld_drop hheld
  have hdropped := (hinv.drop key).record_unheld event habout hlt hunheld
  have hput := hdropped.put key entry'
    (by rw [hsame]; exact hlt)
    (by
      rw [hsame]
      intro key' entry'' hheld'
      exact hunheld key' entry'' (held_drop hheld').2)
    (by
      rw [hsame, Pool.record, history_cons_same habout]
      exact hgood)
  have hcommute : ((pool.drop key).record event).put key entry' =
      (pool.put key entry').record event := by
    simp [Pool.put, Pool.record, Pool.drop]
  rwa [hcommute] at hput

end VynxHttp.ResourcePool

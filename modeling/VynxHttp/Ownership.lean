import VynxHttp.KeyedTable

/-!
# Owners

A table of owners: each key may hold one object, and no object has two owners.
An object lives as long as some key holds it.  `transfer` moves what one key
holds to another, which gives up what it held before.
-/

namespace VynxHttp.Ownership

variable {κ α : Type*} [DecidableEq κ]
variable {owners : KeyedTable κ (Option α)} {key source target : κ} {x y : α}
  {held : Option α}

def Owned (owners : KeyedTable κ (Option α)) (x : α) : Prop :=
  some x ∈ owners.values

instance [DecidableEq α] (owners : KeyedTable κ (Option α)) (x : α) :
    Decidable (Owned owners x) :=
  inferInstanceAs (Decidable (some x ∈ owners.values))

def Exclusive (owners : KeyedTable κ (Option α)) : Prop :=
  ∀ key key' x, owners.find? key = some (some x) →
    owners.find? key' = some (some x) → key = key'

def transfer (owners : KeyedTable κ (Option α)) (source target : κ)
    (held : Option α) : KeyedTable κ (Option α) :=
  (owners.set source none).set target held

theorem owned_iff : Owned owners x ↔ ∃ key, owners.find? key = some (some x) :=
  KeyedTable.mem_values

@[simp] theorem find?_transfer_target :
    (transfer owners source target held).find? target = some held :=
  KeyedTable.find?_set _ _ _

theorem find?_transfer_source (hne : source ≠ target) :
    (transfer owners source target held).find? source = some none := by
  rw [transfer, KeyedTable.find?_set_of_ne hne, KeyedTable.find?_set]

theorem find?_transfer_of_ne (hsource : key ≠ source) (htarget : key ≠ target) :
    (transfer owners source target held).find? key = owners.find? key := by
  rw [transfer, KeyedTable.find?_set_of_ne htarget,
    KeyedTable.find?_set_of_ne hsource]

/-- Where an owner after a transfer has its object from. -/
theorem find?_of_find?_transfer (hne : source ≠ target)
    (hsource : owners.find? source = some held)
    (hkey : (transfer owners source target held).find? key = some (some x)) :
    key = target ∧ owners.find? source = some (some x) ∨
      key ≠ target ∧ key ≠ source ∧ owners.find? key = some (some x) := by
  by_cases htarget : key = target
  · subst htarget
    rw [find?_transfer_target, Option.some.injEq] at hkey
    subst hkey
    exact .inl ⟨rfl, hsource⟩
  · have hother : key ≠ source := by
      rintro rfl
      rw [find?_transfer_source hne] at hkey
      cases hkey
    rw [find?_transfer_of_ne hother htarget] at hkey
    exact .inr ⟨htarget, hother, hkey⟩

/-- A transfer from an owner to itself changes nothing. -/
theorem find?_transfer_self (hsource : owners.find? source = some held) :
    (transfer owners source source held).find? key = owners.find? key := by
  by_cases hkey : key = source
  · rw [hkey, find?_transfer_target, hsource]
  · exact find?_transfer_of_ne hkey hkey

/-! ## What is owned afterwards -/

/-- A new owner has an object of its own. -/
theorem owned_set (hnew : owners.find? key = none) :
    Owned (owners.set key (some x)) y ↔ y = x ∨ Owned owners y := by
  simp only [owned_iff]
  constructor
  · rintro ⟨owner, howner⟩
    rcases KeyedTable.find?_set_eq_some_iff.mp howner with
      ⟨_, hsame⟩ | ⟨_, hold⟩
    · exact .inl (Option.some.inj hsame)
    · exact .inr ⟨owner, hold⟩
  · rintro (rfl | ⟨owner, howner⟩)
    · exact ⟨key, KeyedTable.find?_set _ _ _⟩
    · have hkey : owner ≠ key := by
        rintro rfl
        rw [hnew] at howner
        cases howner
      exact ⟨owner, (KeyedTable.find?_set_of_ne hkey _).trans howner⟩

/-- With an owner goes what it holds. -/
theorem owned_erase (hexclusive : Exclusive owners) :
    Owned (owners.erase key) y ↔
      Owned owners y ∧ owners.find? key ≠ some (some y) := by
  simp only [owned_iff]
  constructor
  · rintro ⟨owner, howner⟩
    have hbefore := KeyedTable.find?_of_find?_erase howner
    refine ⟨⟨owner, hbefore⟩, fun hkey => ?_⟩
    have hsame := hexclusive owner key y hbefore hkey
    rw [hsame, KeyedTable.find?_erase] at howner
    cases howner
  · rintro ⟨⟨owner, howner⟩, hkey⟩
    have hne : owner ≠ key := by
      rintro rfl
      exact hkey howner
    exact ⟨owner, (KeyedTable.find?_erase_of_ne hne).trans howner⟩

/-- With a transfer goes what the target has held. -/
theorem owned_transfer (hexclusive : Exclusive owners)
    (hne : source ≠ target) (hsource : owners.find? source = some held) :
    Owned (transfer owners source target held) y ↔
      Owned owners y ∧ owners.find? target ≠ some (some y) := by
  simp only [owned_iff]
  constructor
  · rintro ⟨owner, howner⟩
    rcases find?_of_find?_transfer hne hsource howner with
      ⟨rfl, hbefore⟩ | ⟨htarget, _, hbefore⟩
    · exact ⟨⟨source, hbefore⟩, fun hkey =>
        hne (hexclusive source owner y hbefore hkey)⟩
    · exact ⟨⟨owner, hbefore⟩, fun hkey =>
        htarget (hexclusive owner target y hbefore hkey)⟩
  · rintro ⟨⟨owner, howner⟩, hkey⟩
    have htarget : owner ≠ target := by
      rintro rfl
      exact hkey howner
    by_cases hother : owner = source
    · subst hother
      rw [hsource, Option.some.injEq] at howner
      exact ⟨target, find?_transfer_target.trans (congrArg some howner)⟩
    · exact ⟨owner, (find?_transfer_of_ne hother htarget).trans howner⟩

theorem owned_transfer_self (hsource : owners.find? source = some held) :
    Owned (transfer owners source source held) y ↔ Owned owners y := by
  simp only [owned_iff, find?_transfer_self hsource]

/-! ## No object has two owners -/

theorem exclusive_empty : Exclusive (.empty : KeyedTable κ (Option α)) := by
  intro key key' x hkey
  cases hkey

theorem Exclusive.set (hexclusive : Exclusive owners)
    (hfresh : ¬Owned owners x) : Exclusive (owners.set key (some x)) := by
  have hother : ∀ owner, (owners.set key (some x)).find? owner =
      some (some x) → owner = key := by
    intro owner howner
    by_contra hne
    rw [KeyedTable.find?_set_of_ne hne] at howner
    exact hfresh (owned_iff.mpr ⟨owner, howner⟩)
  intro first second y hfirst hsecond
  by_cases hx : y = x
  · subst hx
    exact (hother first hfirst).trans (hother second hsecond).symm
  · have hold : ∀ owner, (owners.set key (some x)).find? owner =
        some (some y) → owners.find? owner = some (some y) := by
      intro owner howner
      by_cases hkey : owner = key
      · rw [hkey, KeyedTable.find?_set, Option.some.injEq,
          Option.some.injEq] at howner
        exact absurd howner.symm hx
      · rwa [KeyedTable.find?_set_of_ne hkey] at howner
    exact hexclusive first second y (hold first hfirst) (hold second hsecond)

theorem Exclusive.erase (hexclusive : Exclusive owners) (key : κ) :
    Exclusive (owners.erase key) :=
  fun first second y hfirst hsecond =>
    hexclusive first second y (KeyedTable.find?_of_find?_erase hfirst)
      (KeyedTable.find?_of_find?_erase hsecond)

theorem Exclusive.transfer (hexclusive : Exclusive owners)
    (hsource : owners.find? source = some held) (target : κ) :
    Exclusive (transfer owners source target held) := by
  intro first second y hfirst hsecond
  by_cases hne : source = target
  · subst hne
    rw [find?_transfer_self hsource] at hfirst hsecond
    exact hexclusive first second y hfirst hsecond
  · rcases find?_of_find?_transfer hne hsource hfirst with
        ⟨rfl, hbefore⟩ | ⟨_, hother, hbefore⟩ <;>
      rcases find?_of_find?_transfer hne hsource hsecond with
        ⟨rfl, hbefore'⟩ | ⟨_, hother', hbefore'⟩
    · rfl
    · exact absurd (hexclusive second source y hbefore' hbefore) hother'
    · exact absurd (hexclusive first source y hbefore hbefore') hother
    · exact hexclusive first second y hbefore hbefore'

end VynxHttp.Ownership

import Mathlib.Data.List.Induction
import Mathlib.Data.List.Nodup
import VynxHttp.Unwinding

/-!
# The latest entry of each key

A list store which replaces the entry of a key, or appends one, keeps the
latest entry of every key, in the order in which the keys have come up first.
-/

namespace VynxHttp.Unwinding

variable {α κ : Type*} [BEq κ] {key : α → κ}

def sameKey (key : α → κ) (y x : α) : Bool := key y == key x

def latest (key : α → κ) (entries : List α) (k : κ) : Option α :=
  entries.reverse.find? fun x => key x == k

def replay (key : α → κ) (entries : List α) : List α :=
  entries.foldl (fun store x => upsert (sameKey key) x store) []

theorem replay_append_singleton (entries : List α) (x : α) :
    replay key (entries ++ [x]) =
      upsert (sameKey key) x (replay key entries) := by
  rw [replay, List.foldl_append]
  rfl

theorem latest_append_singleton (entries : List α) (x : α) (k : κ) :
    latest key (entries ++ [x]) k =
      if key x == k then some x else latest key entries k := by
  rw [latest, List.reverse_append, List.reverse_singleton,
    List.singleton_append, List.find?_cons]
  cases key x == k <;> rfl

/-! ## One entry -/

variable [LawfulBEq κ]

theorem map_key_upsert (x : α) (store : List α) :
    (upsert (sameKey key) x store).map key =
      if key x ∈ store.map key then store.map key
      else store.map key ++ [key x] := by
  induction store with
  | nil => rfl
  | cons y ys ih =>
      rw [upsert]
      by_cases hsame : key y = key x
      · simp [sameKey, hsame]
      · rw [if_neg (by simpa [sameKey] using hsame), List.map_cons, ih]
        by_cases hmem : key x ∈ ys.map key
        · rw [if_pos hmem, if_pos (by simp [hmem])]
          rfl
        · rw [if_neg hmem, if_neg (by simp [hmem, Ne.symm hsame])]
          rfl

theorem nodup_map_key_upsert {store : List α}
    (hnodup : (store.map key).Nodup) (x : α) :
    ((upsert (sameKey key) x store).map key).Nodup := by
  rw [map_key_upsert]
  split
  next => exact hnodup
  next hnew =>
    exact List.nodup_append.mpr ⟨hnodup, List.nodup_singleton _,
      fun k hk other hother => by
        rw [List.mem_singleton] at hother
        exact fun heq => hnew (hother ▸ heq ▸ hk)⟩

theorem mem_upsert {store : List α} (hnodup : (store.map key).Nodup)
    {x y : α} :
    y ∈ upsert (sameKey key) x store ↔
      y = x ∨ y ∈ store ∧ key y ≠ key x := by
  induction store with
  | nil => simp [upsert]
  | cons z zs ih =>
      rw [List.map_cons, List.nodup_cons] at hnodup
      rw [upsert]
      by_cases hsame : key z = key x
      · have hothers : ∀ w ∈ zs, key w ≠ key x := fun w hw heq =>
          hnodup.1 (List.mem_map.mpr ⟨w, hw, heq.trans hsame.symm⟩)
        rw [if_pos (by simpa [sameKey] using hsame), List.mem_cons,
          List.mem_cons]
        refine or_congr_right ⟨fun hmem => ⟨.inr hmem, hothers y hmem⟩, ?_⟩
        rintro ⟨rfl | hmem, hne⟩
        · exact absurd hsame hne
        · exact hmem
      · rw [if_neg (by simpa [sameKey] using hsame), List.mem_cons,
          ih hnodup.2, List.mem_cons]
        constructor
        · rintro (rfl | heq | ⟨hmem, hne⟩)
          · exact .inr ⟨.inl rfl, hsame⟩
          · exact .inl heq
          · exact .inr ⟨.inr hmem, hne⟩
        · rintro (heq | ⟨rfl | hmem, hne⟩)
          · exact .inr (.inl heq)
          · exact .inl rfl
          · exact .inr (.inr ⟨hmem, hne⟩)

/-! ## All entries -/

theorem nodup_map_key_replay (entries : List α) :
    ((replay key entries).map key).Nodup := by
  induction entries using List.reverseRecOn with
  | nil => exact List.nodup_nil
  | append_singleton entries x ih =>
      rw [replay_append_singleton]
      exact nodup_map_key_upsert ih x

theorem map_key_replay (entries : List α) :
    (replay key entries).map key = (entries.map key).eraseDups := by
  induction entries using List.reverseRecOn with
  | nil => rfl
  | append_singleton entries x ih =>
      rw [replay_append_singleton, map_key_upsert, ih, List.map_append,
        List.map_singleton, List.eraseDups_append]
      generalize entries.map key = keys
      by_cases hmem : key x ∈ keys
      · rw [if_pos (List.mem_eraseDups.mpr hmem)]
        simp [List.removeAll, hmem]
      · rw [if_neg (mt List.mem_eraseDups.mp hmem)]
        simp [List.removeAll, hmem, List.eraseDups_cons]

/-- The store has what has come last with its key. -/
theorem mem_replay {entries : List α} {y : α} :
    y ∈ replay key entries ↔ latest key entries (key y) = some y := by
  induction entries using List.reverseRecOn with
  | nil => simp [replay, latest]
  | append_singleton entries x ih =>
      rw [replay_append_singleton, mem_upsert (nodup_map_key_replay entries),
        latest_append_singleton, ih]
      by_cases hkey : key x = key y
      · rw [if_pos (beq_iff_eq.mpr hkey), Option.some.injEq]
        simp [hkey.symm, eq_comm]
      · have hne : y ≠ x := fun heq => hkey (congrArg key heq.symm)
        simp [hkey, hne, Ne.symm hkey]

end VynxHttp.Unwinding

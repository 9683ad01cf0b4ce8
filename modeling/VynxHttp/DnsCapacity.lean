import VynxHttp.DnsResolver

/-!
# The size of the DNS cache

A look-up makes room before it stores its entry, and only in a cache which
holds more entries than allowed.  So a cache which is just full takes one more.
-/

namespace VynxHttp

namespace DnsResolver

variable {resolver next : DnsResolver} {host oldest : Bytes}
  {answer : Option (List SocketAddress)} {checked inserted : ℤ}
  {call : DnsCall}

def WithinLimit (resolver : DnsResolver) : Prop :=
  resolver.cache.size ≤ resolver.config.maxCacheSize

theorem resolve_isSome (hlimit : resolver.WithinLimit) :
    (resolver.resolve host checked answer oldest inserted).isSome := by
  unfold resolve
  split
  · exact lookUp_isSome (if_pos hlimit)
  · split
    · rfl
    · exact lookUp_isSome
        (if_pos ((KeyedTable.size_erase_le _ _).trans hlimit))

theorem Trimmed.size_le {maxCacheSize : ℕ}
    {cache kept : KeyedTable Bytes DnsCacheEntry}
    (htrimmed : Trimmed maxCacheSize cache kept)
    (hsize : cache.size ≤ maxCacheSize + 1) : kept.size ≤ maxCacheSize := by
  rcases htrimmed with ⟨hroom, rfl⟩ | ⟨_, oldest, entry, hfind, rfl⟩
  · exact hroom
  · have hless := KeyedTable.size_erase_of_some hfind
    omega

theorem Trimmed.eq {maxCacheSize : ℕ}
    {cache kept : KeyedTable Bytes DnsCacheEntry}
    (htrimmed : Trimmed maxCacheSize cache kept)
    (hroom : cache.size ≤ maxCacheSize) : kept = cache := by
  rcases htrimmed with ⟨_, hkept⟩ | ⟨hfull, _⟩
  · exact hkept
  · omega

theorem Trimmed.size_set {cache kept : KeyedTable Bytes DnsCacheEntry}
    {maxCacheSize : ℕ} (htrimmed : Trimmed maxCacheSize (cache.erase host) kept)
    (entry : DnsCacheEntry) : (kept.set host entry).size = kept.size + 1 := by
  refine KeyedTable.size_set_of_none ?_ entry
  rw [Option.eq_none_iff_forall_ne_some]
  intro other hother
  have hfind := htrimmed.find?_of_find? hother
  rw [KeyedTable.find?_erase] at hfind
  cases hfind

/-- The cache never holds more than one entry above its limit. -/
theorem Resolves.size_le_succ
    (hresolves : resolver.Resolves host checked answer inserted next call)
    (hsize : resolver.cache.size ≤ resolver.config.maxCacheSize + 1) :
    next.cache.size ≤ next.config.maxCacheSize + 1 := by
  cases hresolves with
  | hit => exact hsize
  | failed => exact (KeyedTable.size_erase_le _ _).trans hsize
  | stored expired kept entry hmissing hsome hkept hentry =>
      have hkeptSize := hkept.size_le
        ((KeyedTable.size_erase_le _ _).trans hsize)
      have hset := hkept.size_set entry
      dsimp only
      omega

/-- What is stored next to the entries of the other hosts. -/
theorem Resolves.withinLimit_iff
    (hresolves : resolver.Resolves host checked answer inserted next call)
    (hlimit : resolver.WithinLimit) :
    next.WithinLimit ↔
      (resolver.Missing host checked →
        resolveAddresses resolver.config answer ≠ [] →
          (resolver.cache.erase host).size <
            resolver.config.maxCacheSize) := by
  have herase := (KeyedTable.size_erase_le resolver.cache host).trans hlimit
  cases hresolves with
  | hit entry hfind hvalid =>
      refine iff_of_true hlimit fun hmissing => ?_
      have hexpired := hmissing entry hfind
      omega
  | failed expired hmissing hnone =>
      exact iff_of_true herase fun _ hsome => absurd hnone hsome
  | stored expired kept entry hmissing hsome hkept hentry =>
      have hset := hkept.size_set entry
      rw [hkept.eq herase] at hset
      simp only [WithinLimit, hkept.eq herase, hset, hmissing, hsome,
        ne_eq, not_false_eq_true, true_implies]
      omega

end DnsResolver

/-! ## Runs -/

namespace DnsWorld

open DnsResolver

variable {world next : DnsWorld} {event : DnsEvent}

/-- After the call, the cache holds no more entries than allowed. -/
def Bounded (world : DnsWorld) (event : DnsEvent) : Prop :=
  ∀ next, world.step event = some next → next.resolver.WithinLimit

/-- A `resolve` which has something to store finds fewer entries of other
hosts than allowed.  A new configuration allows the entries which are there. -/
def Roomy (world : DnsWorld) : DnsEvent → Prop
  | .resolve host checked answer _ inserted =>
      world.clock ≤ checked → checked ≤ inserted →
        world.resolver.Missing host checked →
        resolveAddresses world.resolver.config answer ≠ [] →
          (world.resolver.cache.erase host).size <
            world.resolver.config.maxCacheSize
  | .updateConfig config => world.resolver.cache.size ≤ config.maxCacheSize
  | _ => True

theorem bounded_iff (hlimit : world.resolver.WithinLimit) :
    world.Bounded event ↔ world.Roomy event := by
  cases event with
  | resolve host checked answer oldest inserted =>
      constructor
      · intro hbounded hclock hlater
        have hsome : (world.resolver.resolve host checked answer oldest
            inserted).isSome := resolve_isSome hlimit
        obtain ⟨⟨resolver, call⟩, hresolve⟩ := Option.isSome_iff_exists.mp hsome
        have hwithin := hbounded ⟨resolver, call :: world.log, inserted⟩ (by
          simp [step, hclock, hlater, hresolve])
        exact ((resolves_of_resolve hresolve).withinLimit_iff hlimit).mp
          hwithin
      · intro hroomy next hstep
        obtain ⟨hclock, hlater, resolver, call, rfl, hresolves⟩ :=
          resolves_of_step hstep
        exact (hresolves.withinLimit_iff hlimit).mpr (hroomy hclock hlater)
  | resolveRecord host type checked answer made finished =>
      refine iff_of_true (fun next hstep => ?_) trivial
      obtain ⟨_, _, rfl⟩ := eq_of_step_resolveRecord hstep
      exact hlimit
  | clearCache =>
      refine iff_of_true (fun next hstep => ?_) trivial
      cases hstep
      exact Nat.zero_le _
  | updateConfig config =>
      constructor
      · intro hbounded
        exact hbounded _ rfl
      · intro hroomy next hstep
        cases hstep
        exact hroomy

/-- The cache keeps to its limit in a run exactly when every entry which is
stored finds fewer entries of other hosts. -/
theorem bounded_along_iff (config : DnsConfig) (clock : ℤ)
    (events : List DnsEvent) :
    StepRun.Along step Bounded (created config clock) events ↔
      StepRun.Along step Roomy (created config clock) events :=
  StepRun.along_congr (fun world => world.resolver.WithinLimit)
    (fun _ _ hlimit => bounded_iff hlimit)
    (fun _ _ next _ hbounded hstep => hbounded next hstep)
    (s := created config clock) (Nat.zero_le _) events

/-- A cache for one entry, which holds two after the second call. -/
theorem not_bounded_second_host :
    ¬StepRun.Along step Bounded (created { maxCacheSize := 1 } 0)
      [.resolve (ascii "a") 0 (some [.ipv4 ⟨[10, 0, 0, 1], 53, rfl⟩]) [] 1,
        .resolve (ascii "b") 1 (some [.ipv4 ⟨[10, 0, 0, 2], 53, rfl⟩]) [] 2]
    := by
  rintro ⟨_, hlater⟩
  have hover : ((created { maxCacheSize := 1 } 0).step
      (.resolve (ascii "a") 0 (some [.ipv4 ⟨[10, 0, 0, 1], 53, rfl⟩]) []
        1)).any (fun world =>
      (world.step (.resolve (ascii "b") 1
        (some [.ipv4 ⟨[10, 0, 0, 2], 53, rfl⟩]) [] 2)).any fun next =>
      next.resolver.config.maxCacheSize < next.resolver.cache.size) := by
    decide
  obtain ⟨world, hworld, hnext⟩ := (Option.any_eq_true _ _).mp hover
  obtain ⟨next, hsecond, hsize⟩ := (Option.any_eq_true _ _).mp hnext
  have hwithin := (hlater world hworld).1 next hsecond
  exact absurd hwithin (not_le.mpr (of_decide_eq_true hsize))

/-! ## The bound which does hold -/

def KeepsConfig : DnsEvent → Prop
  | .updateConfig _ => False
  | _ => True

theorem size_le_succ_of_step (hkeeps : KeepsConfig event)
    (hsize : world.resolver.cache.size ≤
      world.resolver.config.maxCacheSize + 1)
    (hstep : world.step event = some next) :
    next.resolver.cache.size ≤ next.resolver.config.maxCacheSize + 1 := by
  cases event with
  | resolve host checked answer oldest inserted =>
      obtain ⟨_, _, resolver, call, rfl, hresolves⟩ := resolves_of_step hstep
      exact hresolves.size_le_succ hsize
  | resolveRecord host type checked answer made finished =>
      obtain ⟨_, _, rfl⟩ := eq_of_step_resolveRecord hstep
      exact hsize
  | clearCache =>
      cases hstep
      exact Nat.zero_le _
  | updateConfig config => exact hkeeps.elim

/-- With one configuration, the limit is passed by one entry at most. -/
theorem size_le_succ_of_run {config : DnsConfig} {clock : ℤ}
    {events : List DnsEvent} (hkeeps : ∀ event ∈ events, KeepsConfig event)
    (hrun : StepRun.run step (created config clock) events = some world) :
    world.resolver.cache.size ≤ world.resolver.config.maxCacheSize + 1 :=
  StepRun.run_invariant
    (fun world => world.resolver.cache.size ≤
      world.resolver.config.maxCacheSize + 1)
    KeepsConfig (fun _ _ _ hsize hkept hstep =>
      size_le_succ_of_step hkept hsize hstep)
    (Nat.zero_le _) hkeeps hrun

end DnsWorld

end VynxHttp

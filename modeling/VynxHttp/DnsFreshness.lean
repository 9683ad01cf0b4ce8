import VynxHttp.DnsResolver
import Mathlib.Data.List.Infix

/-!
# What the DNS cache serves

An answer without a look-up is read from the entry which the latest successful
look-up of that host has cached, as long as its lifetime lasts.  The invariant
allows an entry which is no longer the latest to stay in the cache only when it
has expired: the clock does not go back, so it is never served.
-/

namespace VynxHttp

/-! ## What is read back -/

namespace DnsCall

/-- What a successful look-up of the host has cached. -/
def lookedUp (host : Bytes) : DnsCall → Option (Option DnsCacheEntry)
  | .resolve other _ (.lookup addresses stored) _ =>
      if other = host ∧ addresses ≠ [] then some stored else none
  | .resolveRecord other _ (.lookup addresses stored) _ =>
      if other = host ∧ addresses ≠ [] then some stored else none
  | _ => none

/-- The call has looked up a host in vain. -/
def Failed : DnsCall → Prop
  | .resolve _ _ (.lookup addresses _) _ => addresses = []
  | .resolveRecord _ _ (.lookup addresses _) _ => addresses = []
  | _ => False

def isResolve : DnsCall → Bool
  | .resolve .. => true
  | _ => false

end DnsCall

/-- What the latest successful look-up of the host since the cache was last
cleared has cached, in a log whose latest call comes first. -/
def latestLookup (host : Bytes) : List DnsCall → Option (Option DnsCacheEntry)
  | [] => none
  | .clearCache :: _ => none
  | call :: earlier => (call.lookedUp host).or (latestLookup host earlier)

/-- An answer without a look-up is read from what the latest one has cached,
before its lifetime is over. -/
def ServedFresh (earlier : List DnsCall) : DnsCall → Prop
  | .resolve host port (.cache now) result =>
      ∃ entry, latestLookup host earlier = some (some entry) ∧
        now < entry.inserted + seconds entry.ttl ∧
        result = .ok (cachedAddresses port entry.records)
  | .resolveRecord host type (.cache now) result =>
      ∃ entry, latestLookup host earlier = some (some entry) ∧
        now < entry.inserted + seconds entry.ttl ∧
        result = .ok (entry.records.filter (·.type = type))
  | _ => True

namespace DnsWorld

structure Accounted (world : DnsWorld) : Prop where
  served : ∀ call earlier, call :: earlier <:+ world.log →
    ServedFresh earlier call
  failed : ∀ event next call, world.step event = some next →
    next.log = call :: world.log → call.Failed →
    ∀ host entry, next.resolver.cache.find? host = some entry →
      world.resolver.cache.find? host = some entry
  counted : world.resolver.cacheHits + world.resolver.cacheMisses =
    world.log.countP DnsCall.isResolve

/-- The invariant of runs. -/
structure Current (world : DnsWorld) : Prop where
  cached : ∀ host entry, world.resolver.cache.find? host = some entry →
    latestLookup host world.log = some (some entry) ∨
      entry.deadline ≤ world.clock
  served : ∀ call earlier, call :: earlier <:+ world.log →
    ServedFresh earlier call
  counted : world.resolver.cacheHits + world.resolver.cacheMisses =
    world.log.countP DnsCall.isResolve

variable {world next : DnsWorld} {host : Bytes} {entry : DnsCacheEntry}
  {config : DnsConfig} {clock : ℤ}

/-- The log grows by one call at a time. -/
theorem forall_suffix_cons {log : List DnsCall} {call : DnsCall}
    (hserved : ∀ other earlier, other :: earlier <:+ log →
      ServedFresh earlier other)
    (hcall : ServedFresh log call) :
    ∀ other earlier, other :: earlier <:+ call :: log →
      ServedFresh earlier other := by
  intro other earlier hsuffix
  rcases List.suffix_cons_iff.mp hsuffix with hsame | hlater
  · rw [List.cons.injEq] at hsame
    obtain ⟨rfl, rfl⟩ := hsame
    exact hcall
  · exact hserved other earlier hlater

/-- A call which has looked up nothing of the host leaves it its latest
look-up. -/
theorem latestLookup_cons_of_none {call : DnsCall} {log : List DnsCall}
    (hclear : call ≠ .clearCache) (hnone : call.lookedUp host = none) :
    latestLookup host (call :: log) = latestLookup host log := by
  cases call with
  | clearCache => exact absurd rfl hclear
  | _ => simp only [latestLookup, hnone, Option.none_or]

/-- What is valid in the cache was cached by the latest look-up. -/
theorem Current.latest_of_valid (hcurrent : Current world) {now : ℤ}
    (hfind : world.resolver.cache.find? host = some entry)
    (hclock : world.clock ≤ now) (hvalid : now < entry.deadline) :
    latestLookup host world.log = some (some entry) := by
  rcases hcurrent.cached host entry hfind with hlatest | hpast
  · exact hlatest
  · omega

/-- An entry which a call leaves in the cache, without a look-up of its host. -/
theorem Current.keep (hcurrent : Current world) {call : DnsCall} {now : ℤ}
    (hclock : world.clock ≤ now) (hclear : call ≠ .clearCache)
    (hnone : call.lookedUp host = none)
    (hfind : world.resolver.cache.find? host = some entry) :
    latestLookup host (call :: world.log) = some (some entry) ∨
      entry.deadline ≤ now := by
  rw [latestLookup_cons_of_none hclear hnone]
  rcases hcurrent.cached host entry hfind with hlatest | hpast
  · exact .inl hlatest
  · exact .inr (hpast.trans hclock)

theorem Current.resolve (hcurrent : Current world)
    {resolver : DnsResolver} {call : DnsCall} {checked inserted : ℤ}
    {answer : Option (List SocketAddress)}
    (hclock : world.clock ≤ checked) (hlater : checked ≤ inserted)
    (hresolves : world.resolver.Resolves host checked answer inserted
      resolver call) :
    Current ⟨resolver, call :: world.log, inserted⟩ := by
  have hcounted := hcurrent.counted
  have hnow := hclock.trans hlater
  cases hresolves with
  | hit entry hfind hvalid =>
      have hserved : ServedFresh world.log (.resolve host
          world.resolver.config.port (.cache checked)
          (.ok (cachedAddresses world.resolver.config.port entry.records))) :=
        ⟨entry, hcurrent.latest_of_valid hfind hclock hvalid, hvalid, rfl⟩
      constructor
      · intro other cached hcached
        exact hcurrent.keep hnow nofun rfl hcached
      · exact forall_suffix_cons hcurrent.served hserved
      · simp only [List.countP_cons, DnsCall.isResolve, if_true]
        omega
  | failed expired hmissing hnone =>
      constructor
      · intro other cached hcached
        exact hcurrent.keep hnow nofun (by simp [DnsCall.lookedUp])
          (KeyedTable.find?_of_find?_erase hcached)
      · exact forall_suffix_cons hcurrent.served trivial
      · simp only [List.countP_cons, DnsCall.isResolve, if_true]
        omega
  | stored expired kept entry hmissing hsome hkept hentry =>
      constructor
      · intro other cached hcached
        dsimp only at hcached
        rcases KeyedTable.find?_set_eq_some_iff.mp hcached with
          ⟨rfl, rfl⟩ | ⟨hother, hcached⟩
        · simp [latestLookup, DnsCall.lookedUp, hsome]
        · have hbefore := KeyedTable.find?_of_find?_erase
            (hkept.find?_of_find? hcached)
          exact hcurrent.keep hnow nofun
            (by simp [DnsCall.lookedUp, Ne.symm hother]) hbefore
      · exact forall_suffix_cons hcurrent.served trivial
      · simp only [List.countP_cons, DnsCall.isResolve, if_true]
        omega

theorem Current.resolveRecord (hcurrent : Current world)
    {type : DnsRecordType} {checked finished : ℤ}
    {answer : Option (List SocketAddress)} {made : ℕ → ℤ}
    (hclock : world.clock ≤ checked) (hlater : checked ≤ finished) :
    Current ⟨world.resolver,
      world.resolver.resolveRecord host type checked answer made :: world.log,
      finished⟩ := by
  have hcounted := hcurrent.counted
  have hnow := hclock.trans hlater
  unfold DnsResolver.resolveRecord
  split
  next entry hvalid =>
    rw [Option.filter_eq_some_iff, DnsCacheEntry.isValid_iff] at hvalid
    have hserved : ServedFresh world.log (.resolveRecord host type
        (.cache checked) (.ok (entry.records.filter (·.type = type)))) :=
      ⟨entry, hcurrent.latest_of_valid hvalid.1 hclock hvalid.2, hvalid.2, rfl⟩
    constructor
    · intro other cached hcached
      exact hcurrent.keep hnow nofun rfl hcached
    · exact forall_suffix_cons hcurrent.served hserved
    · simpa [DnsCall.isResolve] using hcounted
  next hnone =>
    constructor
    · intro other cached hcached
      by_cases hother : other = host
      · -- A valid entry of this host would have been served.
        subst hother
        right
        dsimp only at hcached
        rw [hcached, Option.filter_eq_none_iff] at hnone
        have hstale := hnone cached rfl
        rw [DnsCacheEntry.isValid_iff] at hstale
        dsimp only
        omega
      · exact hcurrent.keep hnow nofun
          (by simp [DnsResolver.lookUpRecord, DnsCall.lookedUp,
            Ne.symm hother]) hcached
    · exact forall_suffix_cons hcurrent.served trivial
    · simpa [DnsResolver.lookUpRecord, DnsCall.isResolve] using hcounted

theorem Current.clearCache (hcurrent : Current world) :
    Current ⟨world.resolver.clearCache, .clearCache :: world.log,
      world.clock⟩ where
  cached := by
    intro host entry hfind
    cases hfind
  served := forall_suffix_cons hcurrent.served trivial
  counted := by
    simpa [DnsResolver.clearCache, DnsCall.isResolve] using hcurrent.counted

theorem Current.updateConfig (hcurrent : Current world) :
    Current ⟨world.resolver.updateConfig config,
      .updateConfig config :: world.log, world.clock⟩ where
  cached := fun _ _ hfind => hcurrent.keep le_rfl nofun rfl hfind
  served := forall_suffix_cons hcurrent.served trivial
  counted := by
    simpa [DnsResolver.updateConfig, DnsCall.isResolve] using hcurrent.counted

theorem Current.step (hcurrent : Current world) {event : DnsEvent}
    (hstep : world.step event = some next) : Current next := by
  cases event with
  | resolve host checked answer oldest inserted =>
      obtain ⟨hclock, hlater, resolver, call, rfl, hresolves⟩ :=
        resolves_of_step hstep
      exact hcurrent.resolve hclock hlater hresolves
  | resolveRecord host type checked answer made finished =>
      obtain ⟨hclock, hlater, rfl⟩ := eq_of_step_resolveRecord hstep
      exact hcurrent.resolveRecord hclock hlater
  | clearCache =>
      rw [DnsWorld.step, Option.some.injEq] at hstep
      exact hstep ▸ hcurrent.clearCache
  | updateConfig config =>
      rw [DnsWorld.step, Option.some.injEq] at hstep
      exact hstep ▸ hcurrent.updateConfig

end DnsWorld

end VynxHttp

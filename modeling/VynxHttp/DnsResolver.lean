import VynxHttp.ByteString
import VynxHttp.KeyedTable
import VynxHttp.Result
import VynxHttp.StepRun
import Mathlib.Data.Set.Finite.Lemmas

/-!
# The DNS resolver

`dns_resolver` with its cache.  What `getaddrinfo` answers and the readings of
the clock are arguments of the operations.  Readings are integers of
nanoseconds, and their sums with a lifetime do not overflow.
-/

namespace VynxHttp

/-! ## Addresses and records -/

structure Ipv4Address where
  bytes : Bytes
  port : UInt16
  length_eq : bytes.length = 4
  deriving DecidableEq, Repr

structure Ipv6Address where
  bytes : Bytes
  port : UInt16
  scopeId : UInt32
  length_eq : bytes.length = 16
  deriving DecidableEq, Repr

inductive SocketAddress where
  | ipv4 (address : Ipv4Address)
  | ipv6 (address : Ipv6Address)
  deriving DecidableEq, Repr

inductive DnsRecordType where
  | a
  | aaaa
  | cname
  | mx
  | ns
  | txt
  | srv
  deriving DecidableEq, Repr

structure DnsRecord where
  type : DnsRecordType
  name : Bytes
  data : Bytes
  ttl : UInt32
  expiry : ℤ
  priority : UInt16
  port : UInt16
  deriving DecidableEq, Repr

/-- `cacheTtl` is a number of seconds. -/
structure DnsConfig where
  port : UInt16 := 53
  maxCacheSize : ℕ := 1024
  cacheTtl : ℤ := 300
  enableIpv6 : Bool := true
  deriving DecidableEq, Repr

structure DnsCacheEntry where
  records : List DnsRecord
  queryTime : ℤ
  fromCache : Bool
  inserted : ℤ
  ttl : ℤ
  deriving DecidableEq, Repr

/-- A duration of whole seconds in ticks of the clock. -/
def seconds (n : ℤ) : ℤ := n * 1000000000

/-- The record of an address, as both look-ups make it. -/
def makeRecord (config : DnsConfig) (host : Bytes) (expiry : ℤ)
    (address : SocketAddress) : DnsRecord where
  type :=
    match address with
    | .ipv4 _ => .a
    | .ipv6 _ => .aaaa
  name := host
  data :=
    match address with
    | .ipv4 address => address.bytes
    | .ipv6 address => address.bytes
  ttl := UInt32.ofNat (config.cacheTtl % 4294967296).toNat
  expiry := expiry
  priority := 0
  port := config.port

/-- The address in a cached record, if it holds one. -/
def cachedAddress (port : UInt16) (record : DnsRecord) :
    Option SocketAddress :=
  if ha : record.type = .a ∧ record.data.length = 4 then
    some (.ipv4 ⟨record.data, port, ha.2⟩)
  else if haaaa : record.type = .aaaa ∧ record.data.length = 16 then
    some (.ipv6 ⟨record.data, port, 0, haaaa.2⟩)
  else none

def cachedAddresses (port : UInt16) (records : List DnsRecord) :
    List SocketAddress :=
  records.filterMap (cachedAddress port)

namespace DnsCacheEntry

def deadline (entry : DnsCacheEntry) : ℤ :=
  entry.inserted + seconds entry.ttl

/-- `is_cache_valid`. -/
def isValid (entry : DnsCacheEntry) (now : ℤ) : Bool :=
  decide (now < entry.deadline)

@[simp] theorem isValid_iff {entry : DnsCacheEntry} {now : ℤ} :
    entry.isValid now = true ↔ now < entry.deadline :=
  decide_eq_true_iff

/-- What `resolve` caches after a look-up. -/
def stored (config : DnsConfig) (host : Bytes)
    (addresses : List SocketAddress) (inserted : ℤ) : DnsCacheEntry where
  records := addresses.map
    (makeRecord config host (inserted + seconds config.cacheTtl))
  queryTime := inserted
  fromCache := false
  inserted := inserted
  ttl := config.cacheTtl

end DnsCacheEntry

/-! ## Operations -/

/-- Where an answer comes from: from the cache, at a reading of the clock, or
from a look-up which found some addresses, and what was cached of it. -/
inductive DnsSource where
  | cache (now : ℤ)
  | lookup (addresses : List SocketAddress) (stored : Option DnsCacheEntry)
  deriving DecidableEq, Repr

/-- A call which has returned.  The port is the one of the configuration. -/
inductive DnsCall where
  | resolve (host : Bytes) (port : UInt16) (source : DnsSource)
      (result : Result (List SocketAddress))
  | resolveRecord (host : Bytes) (type : DnsRecordType) (source : DnsSource)
      (result : Result (List DnsRecord))
  | clearCache
  | updateConfig (config : DnsConfig)

structure DnsResolver where
  config : DnsConfig
  cache : KeyedTable Bytes DnsCacheEntry := .empty
  cacheHits : ℕ := 0
  cacheMisses : ℕ := 0
  cacheExpired : ℕ := 0

namespace DnsResolver

/-- `resolve_addresses`; `none` when `getaddrinfo` fails. -/
def resolveAddresses (config : DnsConfig)
    (answer : Option (List SocketAddress)) : List SocketAddress :=
  match answer with
  | none => []
  | some addresses => addresses.filter fun address =>
      match address with
      | .ipv4 _ => true
      | .ipv6 _ => config.enableIpv6

/-- `std::min_element` finds one of the oldest entries.  Which one depends on
the order of the map, so `oldest` is an argument, and `none` stands for an
argument which is not the key of an oldest entry. -/
def evictOldestIfNeeded (resolver : DnsResolver) (oldest : Bytes) :
    Option DnsResolver :=
  if resolver.cache.size ≤ resolver.config.maxCacheSize then some resolver
  else
    (resolver.cache.find? oldest).bind fun entry =>
      if ∀ other ∈ resolver.cache.values, entry.inserted ≤ other.inserted then
        some { resolver with cache := resolver.cache.erase oldest }
      else none

/-- `resolve` from the point where the cache has no answer. -/
def lookUp (resolver : DnsResolver) (host : Bytes)
    (answer : Option (List SocketAddress)) (oldest : Bytes) (inserted : ℤ) :
    Option (DnsResolver × DnsCall) :=
  let resolver := { resolver with cacheMisses := resolver.cacheMisses + 1 }
  let addresses := resolveAddresses resolver.config answer
  if addresses = [] then
    some (resolver, .resolve host resolver.config.port (.lookup [] none)
      (.error .dnsResolutionFailed))
  else
    (resolver.evictOldestIfNeeded oldest).map fun evicted =>
      let entry := .stored resolver.config host addresses inserted
      ({ evicted with cache := evicted.cache.set host entry },
        .resolve host resolver.config.port
          (.lookup addresses (some entry)) (.ok addresses))

def resolve (resolver : DnsResolver) (host : Bytes) (checked : ℤ)
    (answer : Option (List SocketAddress)) (oldest : Bytes) (inserted : ℤ) :
    Option (DnsResolver × DnsCall) :=
  match resolver.cache.find? host with
  | none => resolver.lookUp host answer oldest inserted
  | some entry =>
      if entry.isValid checked then
        some ({ resolver with cacheHits := resolver.cacheHits + 1 },
          .resolve host resolver.config.port (.cache checked)
            (.ok (cachedAddresses resolver.config.port entry.records)))
      else
        { resolver with
          cache := resolver.cache.erase host
          cacheExpired := resolver.cacheExpired + 1 }.lookUp host answer
            oldest inserted

/-- `resolve_record` from the point where the cache has no answer.  `made` are
the readings of the clock for the records. -/
def lookUpRecord (resolver : DnsResolver) (host : Bytes)
    (type : DnsRecordType) (answer : Option (List SocketAddress))
    (made : ℕ → ℤ) : DnsCall :=
  let addresses := resolveAddresses resolver.config answer
  let records := (addresses.mapIdx fun i address =>
    makeRecord resolver.config host
      (made i + seconds resolver.config.cacheTtl) address).filter
      (·.type = type)
  .resolveRecord host type (.lookup addresses none)
    (if records = [] ∧ addresses = [] then .error .dnsResolutionFailed
    else .ok records)

def resolveRecord (resolver : DnsResolver) (host : Bytes)
    (type : DnsRecordType) (checked : ℤ)
    (answer : Option (List SocketAddress)) (made : ℕ → ℤ) : DnsCall :=
  match (resolver.cache.find? host).filter (·.isValid checked) with
  | some entry => .resolveRecord host type (.cache checked)
      (.ok (entry.records.filter (·.type = type)))
  | none => resolver.lookUpRecord host type answer made

def clearCache (resolver : DnsResolver) : DnsResolver :=
  { resolver with cache := .empty }

def updateConfig (resolver : DnsResolver) (config : DnsConfig) :
    DnsResolver :=
  { resolver with config }

/-! ## What a call can do -/

/-- `kept` is left of `cache` where there has to be room for an entry. -/
def Trimmed (maxCacheSize : ℕ) (cache kept : KeyedTable Bytes DnsCacheEntry) :
    Prop :=
  cache.size ≤ maxCacheSize ∧ kept = cache ∨
    maxCacheSize < cache.size ∧
      ∃ oldest entry, cache.find? oldest = some entry ∧
        kept = cache.erase oldest

/-- What is there to find of a host when it is looked up: nothing, or an entry
which has expired. -/
def Missing (resolver : DnsResolver) (host : Bytes) (checked : ℤ) : Prop :=
  ∀ entry, resolver.cache.find? host = some entry → entry.deadline ≤ checked

/-- How `resolve` can end. -/
inductive Resolves (resolver : DnsResolver) (host : Bytes) (checked : ℤ)
    (answer : Option (List SocketAddress)) (inserted : ℤ) :
    DnsResolver → DnsCall → Prop where
  | hit (entry : DnsCacheEntry)
      (hfind : resolver.cache.find? host = some entry)
      (hvalid : checked < entry.deadline) :
      Resolves resolver host checked answer inserted
        { resolver with cacheHits := resolver.cacheHits + 1 }
        (.resolve host resolver.config.port (.cache checked)
          (.ok (cachedAddresses resolver.config.port entry.records)))
  | failed (expired : ℕ) (hmissing : resolver.Missing host checked)
      (hnone : resolveAddresses resolver.config answer = []) :
      Resolves resolver host checked answer inserted
        { resolver with
          cache := resolver.cache.erase host
          cacheMisses := resolver.cacheMisses + 1
          cacheExpired := expired }
        (.resolve host resolver.config.port (.lookup [] none)
          (.error .dnsResolutionFailed))
  | stored (expired : ℕ) (kept : KeyedTable Bytes DnsCacheEntry)
      (entry : DnsCacheEntry) (hmissing : resolver.Missing host checked)
      (hsome : resolveAddresses resolver.config answer ≠ [])
      (hkept : Trimmed resolver.config.maxCacheSize
        (resolver.cache.erase host) kept)
      (hentry : entry = .stored resolver.config host
        (resolveAddresses resolver.config answer) inserted) :
      Resolves resolver host checked answer inserted
        { resolver with
          cache := kept.set host entry
          cacheMisses := resolver.cacheMisses + 1
          cacheExpired := expired }
        (.resolve host resolver.config.port
          (.lookup (resolveAddresses resolver.config answer) (some entry))
          (.ok (resolveAddresses resolver.config answer)))

variable {resolver next : DnsResolver} {host oldest : Bytes}
  {answer : Option (List SocketAddress)} {checked inserted : ℤ}
  {call : DnsCall}

theorem Trimmed.find?_of_find? {maxCacheSize : ℕ}
    {cache kept : KeyedTable Bytes DnsCacheEntry} {entry : DnsCacheEntry}
    (htrimmed : Trimmed maxCacheSize cache kept)
    (hfind : kept.find? host = some entry) : cache.find? host = some entry := by
  rcases htrimmed with ⟨_, rfl⟩ | ⟨_, oldest, old, _, rfl⟩
  · exact hfind
  · exact KeyedTable.find?_of_find?_erase hfind

theorem evictOldestIfNeeded_eq {evicted : DnsResolver}
    (hevict : resolver.evictOldestIfNeeded oldest = some evicted) :
    ∃ kept, Trimmed resolver.config.maxCacheSize resolver.cache kept ∧
      evicted = { resolver with cache := kept } := by
  unfold evictOldestIfNeeded at hevict
  by_cases hroom : resolver.cache.size ≤ resolver.config.maxCacheSize
  · rw [if_pos hroom, Option.some.injEq] at hevict
    exact ⟨resolver.cache, .inl ⟨hroom, rfl⟩, hevict.symm⟩
  · rw [if_neg hroom, Option.bind_eq_some_iff] at hevict
    obtain ⟨entry, hfind, hmin⟩ := hevict
    rw [Option.ite_none_right_eq_some, Option.some.injEq] at hmin
    exact ⟨resolver.cache.erase oldest,
      .inr ⟨by omega, oldest, entry, hfind, rfl⟩, hmin.2.symm⟩

/-- A look-up from a cache without an entry of the host. -/
theorem resolves_of_lookUp {start : DnsResolver} {expired : ℕ}
    (hstart : start = { resolver with
      cache := resolver.cache.erase host
      cacheExpired := expired })
    (hmissing : resolver.Missing host checked)
    (hlook : start.lookUp host answer oldest inserted = some (next, call)) :
    Resolves resolver host checked answer inserted next call := by
  subst hstart
  unfold lookUp at hlook
  by_cases hnone : resolveAddresses resolver.config answer = []
  · simp only [hnone, if_true, Option.some.injEq, Prod.mk.injEq] at hlook
    obtain ⟨rfl, rfl⟩ := hlook
    exact .failed expired hmissing hnone
  · simp only [hnone, if_false, Option.map_eq_some_iff, Prod.mk.injEq] at hlook
    obtain ⟨evicted, hevict, rfl, rfl⟩ := hlook
    obtain ⟨kept, hkept, rfl⟩ := evictOldestIfNeeded_eq hevict
    exact .stored expired kept _ hmissing hnone hkept rfl

theorem resolves_of_resolve
    (hresolve : resolver.resolve host checked answer oldest inserted =
      some (next, call)) :
    Resolves resolver host checked answer inserted next call := by
  unfold resolve at hresolve
  cases hfind : resolver.cache.find? host with
  | none =>
      simp only [hfind] at hresolve
      have hstart : resolver = { resolver with
          cache := resolver.cache.erase host
          cacheExpired := resolver.cacheExpired } := by
        rw [KeyedTable.erase_of_none hfind]
      refine resolves_of_lookUp hstart ?_ hresolve
      intro entry hentry
      rw [hfind] at hentry
      cases hentry
  | some entry =>
      simp only [hfind] at hresolve
      by_cases hvalid : checked < entry.deadline
      · rw [if_pos (DnsCacheEntry.isValid_iff.mpr hvalid), Option.some.injEq,
          Prod.mk.injEq] at hresolve
        obtain ⟨rfl, rfl⟩ := hresolve
        exact .hit entry hfind hvalid
      · rw [if_neg (mt DnsCacheEntry.isValid_iff.mp hvalid)] at hresolve
        refine resolves_of_lookUp rfl ?_ hresolve
        intro other hother
        rw [hfind, Option.some.injEq] at hother
        subst hother
        omega

/-- The oldest entries are entries, so a full cache has one to lose. -/
theorem exists_evictOldestIfNeeded (resolver : DnsResolver) :
    ∃ oldest evicted, resolver.evictOldestIfNeeded oldest = some evicted := by
  by_cases hroom : resolver.cache.size ≤ resolver.config.maxCacheSize
  · exact ⟨[], resolver, if_pos hroom⟩
  · have hne : resolver.cache.values ≠ [] := by
      intro hnil
      have hsize : resolver.cache.size = 0 := by
        rw [KeyedTable.size_eq_count, KeyedTable.count, hnil]
        rfl
      omega
    obtain ⟨entry, hentry, hmin⟩ := Set.exists_min_image
      {entry | entry ∈ resolver.cache.values} DnsCacheEntry.inserted
      (List.finite_toSet _) (List.exists_mem_of_ne_nil _ hne)
    obtain ⟨oldest, hfind⟩ := KeyedTable.mem_values.mp hentry
    refine ⟨oldest, { resolver with cache := resolver.cache.erase oldest }, ?_⟩
    rw [evictOldestIfNeeded, if_neg hroom, hfind]
    exact if_pos hmin

theorem lookUp_isSome {start evicted : DnsResolver}
    (hevict : { start with
      cacheMisses := start.cacheMisses + 1 }.evictOldestIfNeeded oldest =
        some evicted) :
    (start.lookUp host answer oldest inserted).isSome := by
  unfold lookUp
  dsimp only
  split
  · rfl
  · rw [hevict]
    rfl

/-- Every call of `resolve` has an outcome. -/
theorem exists_resolve (resolver : DnsResolver) (host : Bytes) (checked : ℤ)
    (answer : Option (List SocketAddress)) (inserted : ℤ) :
    ∃ oldest, (resolver.resolve host checked answer oldest inserted).isSome := by
  have hlookUp : ∀ start : DnsResolver,
      ∃ oldest, (start.lookUp host answer oldest inserted).isSome := by
    intro start
    obtain ⟨oldest, evicted, hevict⟩ := exists_evictOldestIfNeeded
      { start with cacheMisses := start.cacheMisses + 1 }
    exact ⟨oldest, lookUp_isSome hevict⟩
  unfold resolve
  split
  · exact hlookUp resolver
  · split
    · exact ⟨host, rfl⟩
    · exact hlookUp _

end DnsResolver

/-! ## Runs -/

inductive DnsEvent where
  | resolve (host : Bytes) (checked : ℤ)
      (answer : Option (List SocketAddress)) (oldest : Bytes) (inserted : ℤ)
  | resolveRecord (host : Bytes) (type : DnsRecordType) (checked : ℤ)
      (answer : Option (List SocketAddress)) (made : ℕ → ℤ) (finished : ℤ)
  | clearCache
  | updateConfig (config : DnsConfig)

/-- A resolver with the calls which have returned, the latest first, and the
latest reading of the clock. -/
structure DnsWorld where
  resolver : DnsResolver
  log : List DnsCall := []
  clock : ℤ

namespace DnsWorld

def created (config : DnsConfig) (clock : ℤ) : DnsWorld where
  resolver := { config }
  clock := clock

/-- A step is undefined when the clock would go back. -/
def step (world : DnsWorld) : DnsEvent → Option DnsWorld
  | .resolve host checked answer oldest inserted =>
      if world.clock ≤ checked ∧ checked ≤ inserted then
        (world.resolver.resolve host checked answer oldest inserted).map
          fun resolved => ⟨resolved.1, resolved.2 :: world.log, inserted⟩
      else none
  | .resolveRecord host type checked answer made finished =>
      if world.clock ≤ checked ∧ checked ≤ finished then
        some { world with
          log := world.resolver.resolveRecord host type checked answer made ::
            world.log
          clock := finished }
      else none
  | .clearCache =>
      some { world with
        resolver := world.resolver.clearCache
        log := .clearCache :: world.log }
  | .updateConfig config =>
      some { world with
        resolver := world.resolver.updateConfig config
        log := .updateConfig config :: world.log }

variable {world next : DnsWorld} {host : Bytes}

theorem resolves_of_step {checked inserted : ℤ} {oldest : Bytes}
    {answer : Option (List SocketAddress)}
    (hstep : world.step (.resolve host checked answer oldest inserted) =
      some next) :
    world.clock ≤ checked ∧ checked ≤ inserted ∧
      ∃ resolver call, next = ⟨resolver, call :: world.log, inserted⟩ ∧
        world.resolver.Resolves host checked answer inserted resolver call := by
  simp only [step, Option.ite_none_right_eq_some,
    Option.map_eq_some_iff] at hstep
  obtain ⟨⟨hclock, hlater⟩, ⟨resolver, call⟩, hresolve, rfl⟩ := hstep
  exact ⟨hclock, hlater, resolver, call, rfl,
    DnsResolver.resolves_of_resolve hresolve⟩

theorem eq_of_step_resolveRecord {type : DnsRecordType} {checked finished : ℤ}
    {answer : Option (List SocketAddress)} {made : ℕ → ℤ}
    (hstep : world.step
      (.resolveRecord host type checked answer made finished) = some next) :
    world.clock ≤ checked ∧ checked ≤ finished ∧
      next = ⟨world.resolver,
        world.resolver.resolveRecord host type checked answer made ::
          world.log,
        finished⟩ := by
  simp only [step, Option.ite_none_right_eq_some, Option.some.injEq] at hstep
  exact ⟨hstep.1.1, hstep.1.2, hstep.2.symm⟩

end DnsWorld

end VynxHttp

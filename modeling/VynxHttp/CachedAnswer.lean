import VynxHttp.DnsFreshness

/-!
# Cached answers

An answer from the cache is compared with the one which the look-up behind it
has given.  With an unchanged configuration the cache keeps everything but the
scope ids of IPv6 addresses, for which a record has no field.
-/

namespace VynxHttp

namespace SocketAddress

def port : SocketAddress → UInt16
  | .ipv4 address => address.port
  | .ipv6 address => address.port

/-- The scope id of an IPv6 address, and zero for the others. -/
def scopeId : SocketAddress → UInt32
  | .ipv4 _ => 0
  | .ipv6 address => address.scopeId

end SocketAddress

/-- What the latest successful `resolve` of the host has looked up, in a log
whose latest call comes first. -/
def originalAnswer (host : Bytes) : List DnsCall → Option (List SocketAddress)
  | [] => none
  | .resolve other _ (.lookup addresses _) _ :: earlier =>
      if other = host ∧ addresses ≠ [] then some addresses
      else originalAnswer host earlier
  | _ :: earlier => originalAnswer host earlier

/-- The configuration stays as it is, and `getaddrinfo` answers with its
port. -/
def DnsEvent.Ordinary (port : UInt16) : DnsEvent → Prop
  | .resolve _ _ answer _ _ | .resolveRecord _ _ _ answer _ _ =>
      ∀ addresses, answer = some addresses →
        ∀ address ∈ addresses, address.port = port
  | .clearCache => True
  | .updateConfig _ => False

/-- A call which has been made with a configuration. -/
def DnsCall.MadeWith (config : DnsConfig) : DnsCall → Prop
  | .resolve host port (.lookup addresses stored) _ =>
      port = config.port ∧
        (∀ address ∈ addresses, address.port = config.port) ∧
        ∀ entry, stored = some entry → ∃ inserted,
          entry = .stored config host addresses inserted
  | .resolve _ port (.cache _) _ => port = config.port
  | .resolveRecord _ _ (.lookup _ stored) _ => stored = none
  | _ => True

/-! ## Logs -/

section

variable {config : DnsConfig} {host : Bytes} {call : DnsCall}
  {entry : DnsCacheEntry} {log : List DnsCall}

end

/-! ## Runs -/

namespace DnsWorld

variable {world next : DnsWorld} {config : DnsConfig} {clock : ℤ}
  {host : Bytes}

structure MadeWith (config : DnsConfig) (world : DnsWorld) : Prop where
  config_eq : world.resolver.config = config
  calls : ∀ call ∈ world.log, call.MadeWith config

theorem MadeWith.record (hmade : world.MadeWith config) {call : DnsCall}
    (hconfig : next.resolver.config = world.resolver.config)
    (hlog : next.log = call :: world.log) (hcall : call.MadeWith config) :
    next.MadeWith config where
  config_eq := hconfig.trans hmade.config_eq
  calls := by
    intro other hother
    rw [hlog] at hother
    rcases List.mem_cons.mp hother with rfl | hearlier
    · exact hcall
    · exact hmade.calls other hearlier

theorem port_of_mem_resolveAddresses {port : UInt16}
    {answer : Option (List SocketAddress)}
    (hports : ∀ addresses, answer = some addresses →
      ∀ address ∈ addresses, address.port = port)
    {address : SocketAddress}
    (hmem : address ∈ DnsResolver.resolveAddresses config answer) :
    address.port = port := by
  cases answer with
  | none => cases hmem
  | some addresses =>
      exact hports addresses rfl address (List.mem_of_mem_filter hmem)

theorem MadeWith.step (hmade : world.MadeWith config) {event : DnsEvent}
    (hordinary : event.Ordinary config.port)
    (hstep : world.step event = some next) : next.MadeWith config := by
  have hconfig := hmade.config_eq
  cases event with
  | resolve host checked answer oldest inserted =>
      rcases resolves_of_step hstep with
        ⟨_, _, resolver, call, rfl, hresolves⟩
      cases hresolves with
      | hit entry hfind hvalid =>
          exact hmade.record rfl rfl (congrArg DnsConfig.port hconfig)
      | failed expired hmissing hnone =>
          refine hmade.record rfl rfl ?_
          exact ⟨congrArg DnsConfig.port hconfig, by simp, by simp⟩
      | stored expired kept entry hmissing hsome hkept hentry =>
          refine hmade.record rfl rfl ?_
          refine ⟨congrArg DnsConfig.port hconfig, ?_, ?_⟩
          · exact fun address hmem =>
              port_of_mem_resolveAddresses hordinary hmem
          · intro other hother
            rw [Option.some.injEq] at hother
            rw [← hother, hentry, hconfig]
            exact ⟨inserted, rfl⟩
  | resolveRecord host type checked answer made finished =>
      rcases eq_of_step_resolveRecord hstep with ⟨_, _, rfl⟩
      refine hmade.record rfl rfl ?_
      unfold DnsResolver.resolveRecord
      split
      next => trivial
      next => rfl
  | clearCache =>
      rw [DnsWorld.step, Option.some.injEq] at hstep
      rw [← hstep]
      have hcall : DnsCall.MadeWith config .clearCache := trivial
      exact hmade.record rfl rfl hcall
  | updateConfig config => exact hordinary.elim

def linkLocal (scopeId : UInt32) : SocketAddress :=
  .ipv6 ⟨[254, 128, 0, 0, 0, 0, 0, 0, 0, 0, 0, 0, 0, 0, 0, 1], 53, scopeId,
    rfl⟩

/-- A look-up, and an answer from the cache. -/
def resolvedTwice (addresses : List SocketAddress) : List DnsEvent :=
  [.resolve (ascii "host") 1 (some addresses) [] 2,
    .resolve (ascii "host") 3 none [] 3]

/-- The calls which have returned then, the latest first. -/
def answeredTwice (addresses : List SocketAddress) : List DnsCall :=
  let entry : DnsCacheEntry := .stored {} (ascii "host") addresses 2
  [.resolve (ascii "host") 53 (.cache 3)
      (.ok (cachedAddresses 53 entry.records)),
    .resolve (ascii "host") 53 (.lookup addresses (some entry))
      (.ok addresses)]

theorem run_resolvedTwice (scopeId : UInt32) :
    ∃ world,
      StepRun.run step (created {} 0) (resolvedTwice [linkLocal scopeId]) =
        some world ∧
      world.log = answeredTwice [linkLocal scopeId] :=
  ⟨_, rfl, rfl⟩

theorem ordinary_resolvedTwice (scopeId : UInt32) :
    ∀ event ∈ resolvedTwice [linkLocal scopeId], event.Ordinary 53 := by
  simp [resolvedTwice, DnsEvent.Ordinary, linkLocal, SocketAddress.port]

/-- A link-local address comes back from the cache without its scope. -/
theorem not_cached_eq_original :
    ∃ world earlier result,
      StepRun.run step (created {} 0) (resolvedTwice [linkLocal 2]) =
        some world ∧
      (∀ event ∈ resolvedTwice [linkLocal 2], event.Ordinary 53) ∧
      .resolve (ascii "host") 53 (.cache 3) result :: earlier <:+ world.log ∧
      ∃ addresses, originalAnswer (ascii "host") earlier = some addresses ∧
        result ≠ .ok addresses := by
  rcases run_resolvedTwice 2 with ⟨world, hrun, hlog⟩
  have hserved := List.suffix_refl world.log
  nth_rewrite 1 [hlog] at hserved
  exact ⟨world, _, _, hrun, ordinary_resolvedTwice 2, hserved,
    [linkLocal 2], rfl, by decide⟩

end DnsWorld

end VynxHttp

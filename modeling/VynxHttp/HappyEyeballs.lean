import VynxHttp.DnsResolver
import VynxHttp.Interleaving
import VynxHttp.TcpSocket

/-!
# Happy eyeballs

The addresses of a host are separated by their families and interleaved, the
preferred family first.  Then one attempt to connect is made for each of them,
until one succeeds.  The answers of the system to the attempts are arguments.
-/

namespace VynxHttp

open Interleaving

structure HappyEyeballsConfig where
  preferIpv6 : Bool := false

def SocketAddress.isIpv4 : SocketAddress → Bool
  | .ipv4 _ => true
  | .ipv6 _ => false

namespace HappyEyeballs

/-! ## The order of the addresses -/

/-- The IPv4 addresses and the others. -/
def separate (addresses : List SocketAddress) :
    List SocketAddress × List SocketAddress :=
  addresses.foldl (fun separated address =>
    if address.isIpv4 then (separated.1 ++ [address], separated.2)
    else (separated.1, separated.2 ++ [address])) ([], [])

def interleaveRound (config : HappyEyeballsConfig)
    (ipv4Addrs ipv6Addrs interleaved : List SocketAddress) (i : ℕ) :
    List SocketAddress :=
  if config.preferIpv6 then
    pushAt ipv4Addrs i (pushAt ipv6Addrs i interleaved)
  else pushAt ipv6Addrs i (pushAt ipv4Addrs i interleaved)

def interleaved (config : HappyEyeballsConfig)
    (addresses : List SocketAddress) : List SocketAddress :=
  let separated := separate addresses
  (List.range (max separated.1.length separated.2.length)).foldl
    (interleaveRound config separated.1 separated.2) []

/-! ## The attempts -/

/-- Whether a socket could be created, and what the system answers to its
`connect`. -/
structure ConnectAttempt where
  created : Bool
  answer : Bytes → UInt16 → ConnectOutcome

/-- The loop of `connect_with_addresses`.  An attempt goes to the host and the
port, whatever the address is. -/
def tryAddresses (host : Bytes) (port : UInt16)
    (attempts : ℕ → ConnectAttempt) :
    ℕ → List SocketAddress → Result TcpSocket
  | _, [] => .error .connectionRefused
  | i, _ :: later =>
      if (attempts i).created then
        match TcpSocket.connect { conn := i } host port
            (attempts i).answer with
        | (socket, .ok ()) => .ok socket
        | (_, .error _) => tryAddresses host port attempts (i + 1) later
      else tryAddresses host port attempts (i + 1) later

def connectWithAddresses (host : Bytes) (port : UInt16)
    (attempts : ℕ → ConnectAttempt) (addresses : List SocketAddress) :
    Result TcpSocket :=
  if addresses = [] then .error .connectionRefused
  else tryAddresses host port attempts 0 addresses

/-- `resolved` is what `resolve` has returned for the host. -/
def connect (config : HappyEyeballsConfig) (host : Bytes) (port : UInt16)
    (resolved : Result (List SocketAddress))
    (attempts : ℕ → ConnectAttempt) : Result TcpSocket :=
  match resolved with
  | .error _ => .error .dnsResolutionFailed
  | .ok addresses =>
      connectWithAddresses host port attempts (interleaved config addresses)

/-! ## Nothing is lost -/

def ipv4Of (addresses : List SocketAddress) : List SocketAddress :=
  addresses.filter fun address => address.isIpv4

def ipv6Of (addresses : List SocketAddress) : List SocketAddress :=
  addresses.filter fun address => !address.isIpv4

/-- The number of rounds in which both families have an address. -/
def shared (addresses : List SocketAddress) : ℕ :=
  min (ipv4Of addresses).length (ipv6Of addresses).length

/-- A list with the addresses of another one, in which the families take turns
and keep their orders. -/
structure TakesTurns (config : HappyEyeballsConfig)
    (addresses ordered : List SocketAddress) : Prop where
  perm : ordered.Perm addresses
  ipv4 : ipv4Of ordered = ipv4Of addresses
  ipv6 : ipv6Of ordered = ipv6Of addresses
  alternates : ∀ i, i < 2 * shared addresses →
    ∃ address, ordered[i]? = some address ∧
      address.isIpv4 =
        if i % 2 = 0 then !config.preferIpv6 else config.preferIpv6
  rest : ordered.drop (2 * shared addresses) =
    if (ipv6Of addresses).length ≤ (ipv4Of addresses).length then
      (ipv4Of addresses).drop (shared addresses)
    else (ipv6Of addresses).drop (shared addresses)

theorem separate_eq (addresses : List SocketAddress) :
    separate addresses = (ipv4Of addresses, ipv6Of addresses) := by
  have hfrom : ∀ separated : List SocketAddress × List SocketAddress,
      addresses.foldl (fun separated address =>
        if address.isIpv4 then (separated.1 ++ [address], separated.2)
        else (separated.1, separated.2 ++ [address])) separated =
      (separated.1 ++ ipv4Of addresses,
        separated.2 ++ ipv6Of addresses) := by
    induction addresses with
    | nil => simp [ipv4Of, ipv6Of]
    | cons address addresses ih =>
        intro separated
        rw [List.foldl_cons, ih]
        cases hfamily : address.isIpv4 <;> simp [ipv4Of, ipv6Of, hfamily]
  exact hfrom ([], [])

/-- The families in the order of preference. -/
def preferred (config : HappyEyeballsConfig)
    (addresses : List SocketAddress) :
    List SocketAddress × List SocketAddress :=
  if config.preferIpv6 then (ipv6Of addresses, ipv4Of addresses)
  else (ipv4Of addresses, ipv6Of addresses)

theorem interleaved_eq (config : HappyEyeballsConfig)
    (addresses : List SocketAddress) :
    interleaved config addresses =
      interleave (preferred config addresses).1
        (preferred config addresses).2 := by
  unfold interleaved preferred
  rw [separate_eq]
  dsimp only
  cases hprefer : config.preferIpv6 with
  | false =>
      have hround : interleaveRound config (ipv4Of addresses)
          (ipv6Of addresses) = fun result i =>
            pushAt (ipv6Of addresses) i
              (pushAt (ipv4Of addresses) i result) := by
        unfold interleaveRound
        simp [hprefer]
      rw [hround, foldl_pushAt (le_max_left _ _) (le_max_right _ _)]
      rfl
  | true =>
      have hround : interleaveRound config (ipv4Of addresses)
          (ipv6Of addresses) = fun result i =>
            pushAt (ipv4Of addresses) i
              (pushAt (ipv6Of addresses) i result) := by
        unfold interleaveRound
        simp [hprefer]
      rw [hround, foldl_pushAt (le_max_right _ _) (le_max_left _ _)]
      rfl

/-! ## The families of the two lists -/

section

variable (config : HappyEyeballsConfig) (addresses : List SocketAddress)

theorem isIpv4_preferred :
    (∀ address ∈ (preferred config addresses).1,
        address.isIpv4 = !config.preferIpv6) ∧
      ∀ address ∈ (preferred config addresses).2,
        address.isIpv4 = config.preferIpv6 := by
  unfold preferred
  cases config.preferIpv6 <;> simp [ipv4Of, ipv6Of]

theorem preferred_perm :
    ((preferred config addresses).1 ++
      (preferred config addresses).2).Perm addresses := by
  have hperm : (ipv4Of addresses ++ ipv6Of addresses).Perm addresses :=
    List.filter_append_perm _ _
  unfold preferred
  split
  next => exact List.perm_append_comm.trans hperm
  next => exact hperm

theorem shared_eq :
    shared addresses = min (preferred config addresses).1.length
      (preferred config addresses).2.length := by
  unfold shared preferred
  split
  next => exact Nat.min_comm _ _
  next => rfl

/-- One of the families has nothing left. -/
theorem rest_preferred :
    (preferred config addresses).1.drop
          (preferred config addresses).2.length ++
        (preferred config addresses).2.drop
          (preferred config addresses).1.length =
      if (ipv6Of addresses).length ≤ (ipv4Of addresses).length then
        (ipv4Of addresses).drop (shared addresses)
      else (ipv6Of addresses).drop (shared addresses) := by
  unfold preferred shared
  by_cases hle : (ipv6Of addresses).length ≤ (ipv4Of addresses).length
  · rw [if_pos hle, Nat.min_eq_right hle]
    cases config.preferIpv6 <;> simp [List.drop_eq_nil_of_le hle]
  · have hle' : (ipv4Of addresses).length ≤ (ipv6Of addresses).length :=
      Nat.le_of_not_le hle
    rw [if_neg hle, Nat.min_eq_left hle']
    cases config.preferIpv6 <;> simp [List.drop_eq_nil_of_le hle']

theorem alternates_preferred {i : ℕ} (hi : i < 2 * shared addresses) :
    ∃ address, (interleaved config addresses)[i]? = some address ∧
      address.isIpv4 =
        if i % 2 = 0 then !config.preferIpv6 else config.preferIpv6 := by
  rcases isIpv4_preferred config addresses with ⟨hfirst, hsecond⟩
  rw [shared_eq config] at hi
  have hturn : i / 2 < (preferred config addresses).1.length ∧
      i / 2 < (preferred config addresses).2.length := by omega
  rcases getElem?_interleave hturn.1 hturn.2 with ⟨heven, hodd⟩
  rw [interleaved_eq]
  by_cases hparity : i % 2 = 0
  · have hi : i = 2 * (i / 2) := by omega
    rw [List.getElem?_eq_getElem hturn.1, ← hi] at heven
    rw [if_pos hparity]
    exact ⟨_, heven, hfirst _ (List.getElem_mem _)⟩
  · have hi : i = 2 * (i / 2) + 1 := by omega
    rw [List.getElem?_eq_getElem hturn.2, ← hi] at hodd
    rw [if_neg hparity]
    exact ⟨_, hodd, hsecond _ (List.getElem_mem _)⟩

theorem ipv4Of_interleaved :
    ipv4Of (interleaved config addresses) = ipv4Of addresses := by
  have hfamilies := isIpv4_preferred config addresses
  rw [interleaved_eq]
  refine (filter_interleave hfamilies.1 (by simpa using hfamilies.2)).trans ?_
  unfold preferred
  cases config.preferIpv6 <;> rfl

theorem ipv6Of_interleaved :
    ipv6Of (interleaved config addresses) = ipv6Of addresses := by
  have hfamilies := isIpv4_preferred config addresses
  have hfirst : ∀ address ∈ (preferred config addresses).1,
      (!address.isIpv4) = config.preferIpv6 := by
    intro address hmem
    simp [hfamilies.1 address hmem]
  have hsecond : ∀ address ∈ (preferred config addresses).2,
      (!address.isIpv4) = !config.preferIpv6 := by
    intro address hmem
    simp [hfamilies.2 address hmem]
  rw [interleaved_eq]
  refine (filter_interleave hfirst hsecond).trans ?_
  unfold preferred
  cases config.preferIpv6 <;> rfl

/-- The interleaved list has the addresses of the resolved one and no others,
whatever the preference is. -/
theorem interleaved_takesTurns :
    TakesTurns config addresses (interleaved config addresses) := by
  refine ⟨?_, ipv4Of_interleaved config addresses,
    ipv6Of_interleaved config addresses,
    fun _ hi => alternates_preferred config addresses hi, ?_⟩
  · rw [interleaved_eq]
    exact (interleave_perm _ _).trans (preferred_perm config addresses)
  · rw [interleaved_eq, ← rest_preferred config addresses,
      shared_eq config, drop_interleave]

end

/-! ## What the attempts come to -/

/-- A socket is created, and the system starts to connect it. -/
def ConnectAttempt.Succeeds (attempt : ConnectAttempt) (host : Bytes)
    (port : UInt16) : Prop :=
  attempt.created = true ∧
    (attempt.answer host port matches .established | .inProgress)

variable {host : Bytes} {port : UInt16} {attempts : ℕ → ConnectAttempt}

theorem tryAddresses_cons (host : Bytes) (port : UInt16)
    (attempts : ℕ → ConnectAttempt) (i : ℕ) (address : SocketAddress)
    (later : List SocketAddress) :
    (attempts i).Succeeds host port ∧
        (∃ socket, tryAddresses host port attempts i (address :: later) =
          .ok socket) ∨
      ¬(attempts i).Succeeds host port ∧
        tryAddresses host port attempts i (address :: later) =
          tryAddresses host port attempts (i + 1) later := by
  unfold ConnectAttempt.Succeeds
  rw [tryAddresses]
  unfold TcpSocket.connect
  cases (attempts i).created with
  | false => exact .inr ⟨by simp, rfl⟩
  | true =>
      cases (attempts i).answer host port with
      | unresolved code => exact .inr ⟨by simp, rfl⟩
      | established => exact .inl ⟨by simp, _, rfl⟩
      | inProgress => exact .inl ⟨by simp, _, rfl⟩
      | refused => exact .inr ⟨by simp, rfl⟩

theorem tryAddresses_isOk_iff {i : ℕ} {addresses : List SocketAddress} :
    (∃ socket, tryAddresses host port attempts i addresses = .ok socket) ↔
      ∃ k, k < addresses.length ∧ (attempts (i + k)).Succeeds host port := by
  induction addresses generalizing i with
  | nil => simp [tryAddresses]
  | cons address later ih =>
      rcases tryAddresses_cons host port attempts i address later with
        ⟨hsucceeds, hok⟩ | ⟨hfails, hlater⟩
      · exact iff_of_true hok ⟨0, Nat.succ_pos _, hsucceeds⟩
      · rw [hlater, ih]
        constructor
        · rintro ⟨k, hk, hsucceeds⟩
          refine ⟨k + 1, Nat.succ_lt_succ hk, ?_⟩
          rwa [Nat.add_right_comm] at hsucceeds
        · rintro ⟨k, hk, hsucceeds⟩
          cases k with
          | zero => exact absurd hsucceeds hfails
          | succ k =>
              refine ⟨k, Nat.lt_of_succ_lt_succ hk, ?_⟩
              rwa [Nat.add_right_comm]

/-- There is one attempt for each address, and the first which succeeds is
enough. -/
theorem connect_isOk_iff (config : HappyEyeballsConfig)
    (addresses : List SocketAddress) :
    (∃ socket, connect config host port (.ok addresses) attempts =
        .ok socket) ↔
      ∃ k, k < addresses.length ∧ (attempts k).Succeeds host port := by
  have hlength : (interleaved config addresses).length = addresses.length :=
    (interleaved_takesTurns config addresses).perm.length_eq
  unfold connect connectWithAddresses
  dsimp only
  split
  next hnil =>
    rw [hnil, List.length_nil] at hlength
    simp [← hlength]
  next =>
    rw [tryAddresses_isOk_iff, hlength]
    simp only [Nat.zero_add]

end HappyEyeballs

end VynxHttp

import VynxHttp.PoolEntry

/-!
# The send loop

`send_request` keeps how many bytes have been sent and how many remain, and
offers what the two counters say.  `SendLoop.run` follows it over any transport
and notes every call; the calls offer exactly what has not been accepted yet
(`Transmits`), and `PoolEntry.sendRequest` is this loop over the socket or the
TLS session of an entry.
-/

namespace VynxHttp

/-- What the transport does with one write: it accepts at most the bytes which
it is offered. -/
structure Write where
  answer : Bytes → Result ℕ
  answer_le : ∀ {offered count}, answer offered = .ok count →
    count ≤ offered.length

structure SendCall where
  offered : Bytes
  answer : Result ℕ

/-- The bytes which a call has got through. -/
def SendCall.accepted (call : SendCall) : Bytes :=
  match call.answer with
  | .ok count => call.offered.take count
  | .error _ => []

def acceptedBy (calls : List SendCall) : Bytes :=
  calls.flatMap SendCall.accepted

@[simp] theorem acceptedBy_nil : acceptedBy [] = [] := rfl

@[simp] theorem acceptedBy_cons (call : SendCall) (calls : List SendCall) :
    acceptedBy (call :: calls) = call.accepted ++ acceptedBy calls := by
  simp [acceptedBy]

/-- The loop of `send_request` over the serialized request, from its two
counters: the calls which it makes, and the result unless it waits for another
answer. -/
def sendLoop (serialized : Bytes) :
    ℕ → ℕ → List Write → List SendCall × Option (Result Unit)
  | _, remaining, [] => ([], if remaining = 0 then some success else none)
  | totalSent, remaining, write :: writes =>
      if remaining = 0 then ([], some success)
      else
        let chunk := (serialized.drop totalSent).take remaining
        match write.answer chunk with
        | .error code => ([⟨chunk, .error code⟩], some (.error code))
        | .ok 0 => ([⟨chunk, .ok 0⟩], some (.error .operationTimeout))
        | .ok (count + 1) =>
            let (calls, status) := sendLoop serialized
              (totalSent + (count + 1)) (remaining - (count + 1)) writes
            (⟨chunk, .ok (count + 1)⟩ :: calls, status)

/-- Every call offers the bytes which have not been accepted; the loop is left
with success when all have been, and with an error as soon as a call fails or
gets no byte through. -/
structure Transmits (serialized : Bytes) (calls : List SendCall)
    (status : Option (Result Unit)) : Prop where
  offered : ∀ before call after, calls = before ++ call :: after →
    acceptedBy before ++ call.offered = serialized ∧ call.offered ≠ []
  accepted : ∀ before, before <+: calls → acceptedBy before <+: serialized
  returns : status = some success ↔ acceptedBy calls = serialized
  failed : ∀ before call after code, calls = before ++ call :: after →
    call.answer = .error code → after = [] ∧ status = some (.error code)
  stalled : ∀ before call after, calls = before ++ call :: after →
    call.answer = .ok 0 →
      after = [] ∧ status = some (.error .operationTimeout)
  bounded : calls.length ≤ serialized.length

/-! ## One round -/

theorem Transmits.nil : Transmits [] [] (some success) where
  offered := by simp
  accepted := by
    intro before hprefix
    rw [List.prefix_nil.mp hprefix]
    exact List.prefix_refl _
  returns := by simp
  failed := by simp
  stalled := by simp
  bounded := Nat.le_refl _

theorem Transmits.waiting {rest : Bytes} (hrest : rest ≠ []) :
    Transmits rest [] none where
  offered := by simp
  accepted := by
    intro before hprefix
    rw [List.prefix_nil.mp hprefix]
    exact List.nil_prefix
  returns := by simp [Ne.symm hrest]
  failed := by simp
  stalled := by simp
  bounded := Nat.zero_le _

/-- The last call, which gets no byte through. -/
theorem Transmits.last {rest : Bytes} (hrest : rest ≠ [])
    {answer : Result ℕ} {code : ErrorCode}
    (hanswer : answer = .error code ∨
      answer = .ok 0 ∧ code = .operationTimeout) :
    Transmits rest [⟨rest, answer⟩] (some (.error code)) := by
  have hnone : SendCall.accepted ⟨rest, answer⟩ = [] := by
    rcases hanswer with rfl | ⟨rfl, _⟩ <;> rfl
  have hsingle : ∀ {before call after},
      [SendCall.mk rest answer] = before ++ call :: after →
      before = [] ∧ call = ⟨rest, answer⟩ ∧ after = [] := by
    intro before call after hcalls
    cases before with
    | nil =>
        rw [List.nil_append, List.cons.injEq] at hcalls
        exact ⟨rfl, hcalls.1.symm, hcalls.2.symm⟩
    | cons first before => simp at hcalls
  constructor
  · intro before call after hcalls
    obtain ⟨rfl, rfl, _⟩ := hsingle hcalls
    exact ⟨rfl, hrest⟩
  · intro before hprefix
    have hempty : acceptedBy before = [] := by
      cases before with
      | nil => rfl
      | cons first before =>
          obtain ⟨rfl, hrest⟩ := List.cons_prefix_cons.mp hprefix
          rw [List.prefix_nil.mp hrest, acceptedBy_cons, hnone]
          rfl
    rw [hempty]
    exact List.nil_prefix
  · simp [hnone, Ne.symm hrest, success]
  · intro before call after code' hcalls hcode
    obtain ⟨_, rfl, hafter⟩ := hsingle hcalls
    refine ⟨hafter, ?_⟩
    rcases hanswer with rfl | ⟨rfl, _⟩
    · exact congrArg (some ∘ Except.error) (Except.error.inj hcode)
    · cases hcode
  · intro before call after hcalls hzero
    obtain ⟨_, rfl, hafter⟩ := hsingle hcalls
    refine ⟨hafter, ?_⟩
    rcases hanswer with rfl | ⟨_, rfl⟩
    · cases hzero
    · rfl
  · exact List.length_pos_iff.mpr hrest

/-- A call which gets some bytes through, before the calls for the others. -/
theorem Transmits.accept {rest : Bytes} {count : ℕ} (hpos : 0 < count)
    (hcount : count ≤ rest.length) {calls : List SendCall}
    {status : Option (Result Unit)}
    (htransmits : Transmits (rest.drop count) calls status) :
    Transmits rest (⟨rest, .ok count⟩ :: calls) status := by
  have hhead : SendCall.accepted ⟨rest, .ok count⟩ = rest.take count := rfl
  have hsplit : ∀ {before call after},
      SendCall.mk rest (.ok count) :: calls = before ++ call :: after →
      before = [] ∧ call = ⟨rest, .ok count⟩ ∨
        ∃ earlier, before = ⟨rest, .ok count⟩ :: earlier ∧
          calls = earlier ++ call :: after := by
    intro before call after hcalls
    cases before with
    | nil =>
        rw [List.nil_append, List.cons.injEq] at hcalls
        exact .inl ⟨rfl, hcalls.1.symm⟩
    | cons first earlier =>
        rw [List.cons_append, List.cons.injEq] at hcalls
        exact .inr ⟨earlier, by rw [hcalls.1], hcalls.2⟩
  constructor
  · intro before call after hcalls
    rcases hsplit hcalls with ⟨rfl, rfl⟩ | ⟨earlier, rfl, hlater⟩
    · refine ⟨rfl, fun hnil => ?_⟩
      have hempty : rest = [] := hnil
      rw [hempty, List.length_nil] at hcount
      omega
    · obtain ⟨hoffered, hne⟩ := htransmits.offered earlier call after hlater
      refine ⟨?_, hne⟩
      rw [acceptedBy_cons, hhead, List.append_assoc, hoffered,
        List.take_append_drop]
  · intro before hprefix
    cases before with
    | nil => exact List.nil_prefix
    | cons first earlier =>
        obtain ⟨rfl, hlater⟩ := List.cons_prefix_cons.mp hprefix
        have haccepted := htransmits.accepted earlier hlater
        rw [acceptedBy_cons, hhead]
        conv_rhs => rw [← List.take_append_drop count rest]
        exact (List.prefix_append_right_inj _).mpr haccepted
  · rw [htransmits.returns, acceptedBy_cons, hhead]
    conv_rhs => rhs; rw [← List.take_append_drop count rest]
    rw [List.append_cancel_left_eq]
  · intro before call after code hcalls hcode
    rcases hsplit hcalls with ⟨_, rfl⟩ | ⟨earlier, rfl, hlater⟩
    · cases hcode
    · exact htransmits.failed earlier call after code hlater hcode
  · intro before call after hcalls hzero
    rcases hsplit hcalls with ⟨_, rfl⟩ | ⟨earlier, rfl, hlater⟩
    · have hnone : count = 0 := Except.ok.inj hzero
      omega
    · exact htransmits.stalled earlier call after hlater hzero
  · have hbounded := htransmits.bounded
    rw [List.length_drop] at hbounded
    rw [List.length_cons]
    omega

/-! ## The loop -/

/-- The two counters are complementary, so that a round offers the bytes which
are left. -/
theorem sendLoop_transmits {serialized : Bytes} {totalSent remaining : ℕ}
    (hsum : totalSent + remaining = serialized.length)
    (writes : List Write) :
    Transmits (serialized.drop totalSent)
      (sendLoop serialized totalSent remaining writes).1
      (sendLoop serialized totalSent remaining writes).2 := by
  induction writes generalizing totalSent remaining with
  | nil =>
      rw [sendLoop]
      by_cases hdone : remaining = 0
      · rw [if_pos hdone, List.drop_eq_nil_of_le (by omega)]
        exact .nil
      · have hrest : serialized.drop totalSent ≠ [] := by
          rw [Ne, List.drop_eq_nil_iff]
          omega
        rw [if_neg hdone]
        exact .waiting hrest
  | cons write writes ih =>
      rw [sendLoop]
      by_cases hdone : remaining = 0
      · rw [if_pos hdone, List.drop_eq_nil_of_le (by omega)]
        exact .nil
      · have hrest : serialized.drop totalSent ≠ [] := by
          rw [Ne, List.drop_eq_nil_iff]
          omega
        have hchunk : (serialized.drop totalSent).take remaining =
            serialized.drop totalSent :=
          List.take_of_length_le (by rw [List.length_drop]; omega)
        rw [if_neg hdone]
        simp only [hchunk]
        cases hanswer : write.answer (serialized.drop totalSent) with
        | error code => exact .last hrest (.inl rfl)
        | ok count =>
            have hle := write.answer_le hanswer
            rw [List.length_drop] at hle
            -- An accepted count keeps the counters complementary.
            cases count with
            | zero => exact .last hrest (.inr ⟨rfl, rfl⟩)
            | succ count =>
                have hlater := @ih (totalSent + (count + 1))
                  (remaining - (count + 1)) (by omega)
                rw [← List.drop_drop] at hlater
                exact .accept (Nat.succ_pos _)
                  (by rw [List.length_drop]; omega) hlater

/-- One answer for each byte is always enough. -/
theorem sendLoop_returns {serialized : Bytes} {totalSent remaining : ℕ}
    {writes : List Write} (hwrites : remaining ≤ writes.length) :
    (sendLoop serialized totalSent remaining writes).2.isSome = true := by
  induction writes generalizing totalSent remaining with
  | nil =>
      have hdone : remaining = 0 := Nat.le_zero.mp hwrites
      rw [sendLoop, if_pos hdone]
      rfl
  | cons write writes ih =>
      rw [sendLoop]
      split
      next => rfl
      next =>
        simp only
        split
        next => rfl
        next => rfl
        next count _ =>
          rw [List.length_cons] at hwrites
          exact ih (by omega)

/-! ## The connection of an entry -/

theorem TcpSocket.send_le {socket : TcpSocket} {data : Bytes}
    {outcome : SendOutcome} {count : ℕ}
    (hsend : socket.send data outcome = .ok count) :
    count ≤ data.length := by
  unfold TcpSocket.send at hsend
  split at hsend
  next => cases hsend
  next =>
    cases outcome with
    | accepted taken =>
        obtain rfl := Except.ok.inj hsend
        exact Nat.min_le_right _ _
    | wouldBlock =>
        obtain rfl := Except.ok.inj hsend
        exact Nat.zero_le _
    | failed => cases hsend

theorem TlsContext.write_le {data : Bytes} {outcome : SendOutcome}
    {count : ℕ} (hwrite : TlsContext.write data outcome = .ok count) :
    count ≤ data.length := by
  cases outcome with
  | accepted taken =>
      cases taken with
      | zero => cases hwrite
      | succ taken =>
          obtain rfl := Except.ok.inj hwrite
          exact Nat.min_le_right _ _
  | wouldBlock => cases hwrite
  | failed => cases hwrite

namespace PoolEntry

variable (entry : PoolEntry)

/-- `tls->write` or `socket.send`. -/
def writing (outcome : SendOutcome) : Write where
  answer data := entry.write data outcome
  answer_le := by
    intro data count hanswer
    unfold write at hanswer
    split at hanswer
    next => exact TlsContext.write_le hanswer
    next => exact TcpSocket.send_le hanswer

theorem sendRemaining_eq {serialized : Bytes} {totalSent remaining : ℕ}
    (hsum : totalSent + remaining = serialized.length)
    (outcomes : List SendOutcome) :
    entry.sendRemaining (serialized.drop totalSent) outcomes =
      (acceptedBy (sendLoop serialized totalSent remaining
          (outcomes.map entry.writing)).1,
        (sendLoop serialized totalSent remaining
          (outcomes.map entry.writing)).2) := by
  have hempty : ∀ {totalSent remaining : ℕ},
      totalSent + remaining = serialized.length →
      (serialized.drop totalSent = [] ↔ remaining = 0) := by
    intro totalSent remaining hsum
    rw [List.drop_eq_nil_iff]
    omega
  induction outcomes generalizing totalSent remaining with
  | nil => simp [sendRemaining, sendLoop, hempty hsum]
  | cons outcome outcomes ih =>
      have hchunk : (serialized.drop totalSent).take remaining =
          serialized.drop totalSent :=
        List.take_of_length_le (by rw [List.length_drop]; omega)
      rw [sendRemaining, List.map_cons, sendLoop]
      by_cases hdone : remaining = 0
      · rw [if_pos hdone, if_pos ((hempty hsum).mpr hdone)]
        rfl
      · rw [if_neg hdone, if_neg (mt (hempty hsum).mp hdone)]
        simp only [hchunk, writing]
        cases hwrite : entry.write (serialized.drop totalSent) outcome with
        | error code => rfl
        | ok count =>
            have hle := (entry.writing outcome).answer_le hwrite
            rw [List.length_drop] at hle
            cases count with
            | zero => rfl
            | succ count =>
                have hlater := @ih (totalSent + (count + 1))
                  (remaining - (count + 1)) (by omega)
                rw [← List.drop_drop] at hlater
                simp only [hlater]
                rfl

/-- The serialization of a request is sent as it is, whatever the transport
answers; and this is how a request is sent on an entry. -/
theorem sendRequest_transmits (request : HttpRequest) :
    ∃ serialized, request.serialize = some serialized ∧
      (∀ writes,
        Transmits serialized.unread
          (sendLoop serialized.unread 0 serialized.size writes).1
          (sendLoop serialized.unread 0 serialized.size writes).2 ∧
        (serialized.size ≤ writes.length →
          (sendLoop serialized.unread 0 serialized.size writes).2.isSome =
            true)) ∧
      ∀ (entry : PoolEntry) outcomes, entry.sendRequest request outcomes =
        (acceptedBy (sendLoop serialized.unread 0 serialized.size
            (outcomes.map entry.writing)).1,
          (sendLoop serialized.unread 0 serialized.size
            (outcomes.map entry.writing)).2) := by
  obtain ⟨serialized, hserialize, _⟩ := request.serialize_spec
  have hsum : 0 + serialized.size = serialized.unread.length := by
    rw [serialized.length_unread, Nat.zero_add]
  refine ⟨serialized, hserialize, fun writes => ?_, fun entry outcomes => ?_⟩
  · exact ⟨sendLoop_transmits hsum writes, sendLoop_returns⟩
  · have hloop := entry.sendRemaining_eq hsum outcomes
    rw [sendRequest, hserialize]
    exact hloop

end PoolEntry

end VynxHttp

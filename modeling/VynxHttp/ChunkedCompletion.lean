import VynxHttp.ReceiveResponse

/-!
# When a chunk-coded response is complete

The parser is complete as soon as it has read the size line of the last chunk.
The trailer section and the empty line which ends the message may still be
under way then, and are left on the connection.
-/

namespace VynxHttp

open DelimitedText PoolEntry Segmentation

namespace ChunkedResponse

/-- The parser is complete on no proper prefix of the message which arrives in
these segments, and a client which gets it leaves none of it unread. -/
def NeverEarly (entry : PoolEntry) (segments : List Bytes) : Prop :=
  (∀ before after p, segments = before ++ after → after.flatten ≠ [] →
    HttpParser.new.feedAll before = some p → p.state ≠ .complete) ∧
  ∀ received reply,
    entry.receiveResponse (segments.map .received) = some received →
    received.result = .ok reply → received.unread = []

theorem neverEarly_of_prefixes {entry : PoolEntry}
    {segments : List Bytes} (hne : ∀ segment ∈ segments, segment ≠ [])
    (hinitial : ∀ before after p, segments = before ++ after →
      after.flatten ≠ [] → HttpParser.new.feedAll before = some p →
      p.state ≠ .complete) : NeverEarly entry segments := by
  refine ⟨hinitial, fun received reply hreceive hok => ?_⟩
  obtain ⟨before, after, p, hsplit, hunread, hrun, hstate, _⟩ :=
    PoolEntry.receiveResponse_ok hreceive hok
  have hempty : after.flatten = [] := by
    by_contra hmore
    exact hinitial before after p hsplit hmore hrun hstate
  have hafter : after = [] := by
    cases after with
    | nil => rfl
    | cons segment after =>
        simp only [List.flatten_cons, List.append_eq_nil_iff] at hempty
        exact absurd hempty.1 (hne segment (by simp [hsplit]))
  rw [hunread, hafter, List.map_nil]

/-- Outside the chunks, the parser is complete from the end of the last size
line on. -/
theorem complete_iff_of_initial {response : ChunkedResponse}
    (hlimit : response.head.WithinLimit) {before : List Bytes}
    {rest : Bytes} (hcut : before.flatten ++ rest = response.encode)
    (hsafe : ∀ n ∈ ends 0 before, ¬ response.EndsInChunk n) :
    ∃ p, HttpParser.new.feedAll before = some p ∧
      (p.state = .complete ↔
        response.lastLineEnd ≤ before.flatten.length) := by
  obtain ⟨p, hrun, hphase⟩ := HttpParser.feedAll_inStep hlimit hcut hsafe
  have hlength := congrArg List.length hcut
  rw [List.length_append, response.length_encode] at hlength
  refine ⟨p, hrun, ?_⟩
  rcases hphase with ⟨hshort, hdelivered⟩ | ⟨hlong, hstate⟩
  · exact iff_of_true hdelivered.state_eq (by omega)
  · exact iff_of_false hstate (by omega)

theorem ends_of_initial {before after : List Bytes} {n : ℕ}
    (hmem : n ∈ ends 0 before) : n ∈ ends 0 (before ++ after) := by
  rw [ends_append]
  exact List.mem_append_left _ hmem

theorem mem_ends_flatten {before : List Bytes} (hne : before ≠ []) :
    before.flatten.length ∈ ends 0 before := by
  obtain ⟨init, last, rfl⟩ := before.eq_nil_or_concat.resolve_left hne
  simp [ends_append]

theorem neverEarly_iff {response : ChunkedResponse}
    (hlimit : response.head.WithinLimit) (entry : PoolEntry)
    {segments : List Bytes} (hcut : segments.flatten = response.encode)
    (hne : ∀ segment ∈ segments, segment ≠ [])
    (hsafe : ∀ n ∈ ends 0 segments, ¬ response.EndsInChunk n) :
    NeverEarly entry segments ↔
      ∀ n ∈ ends 0 segments, ¬ response.EndsInTrailer n := by
  constructor
  · rintro ⟨hinitial, _⟩ n hmem ⟨hlast, hshort⟩
    obtain ⟨before, after, rfl, _, hoffset⟩ :=
      exists_split_of_mem_ends hmem
    rw [Nat.zero_add] at hoffset
    rw [List.flatten_append] at hcut
    obtain ⟨p, hrun, hcomplete⟩ :=
      complete_iff_of_initial hlimit hcut
        fun m hm => hsafe m (ends_of_initial hm)
    have hmore : after.flatten ≠ [] := by
      intro hempty
      rw [hempty, List.append_nil] at hcut
      rw [← hcut] at hshort
      omega
    exact hinitial before after p rfl hmore hrun
      (hcomplete.mpr (by omega))
  · intro htrailer
    refine neverEarly_of_prefixes hne ?_
    rintro before after p rfl hmore hrun hstate
    rw [List.flatten_append] at hcut
    obtain ⟨p', hrun', hcomplete⟩ :=
      complete_iff_of_initial hlimit hcut
        fun m hm => hsafe m (ends_of_initial hm)
    rw [hrun, Option.some.injEq] at hrun'
    subst hrun'
    have hlast := hcomplete.mp hstate
    have hbefore : before ≠ [] := by
      rintro rfl
      simp only [HttpParser.feedAll, run_nil, Option.some.injEq] at hrun
      rw [← hrun] at hstate
      exact absurd hstate (by decide)
    have hlength := congrArg List.length hcut
    have hpos := List.length_pos_of_ne_nil hmore
    rw [List.length_append] at hlength
    exact htrailer _ (ends_of_initial (mem_ends_flatten hbefore))
      ⟨hlast, by omega⟩

theorem neverEarly_of_firstCut {response : ChunkedResponse}
    (hlimit : response.head.WithinLimit) (entry : PoolEntry)
    {segments : List Bytes} (hcut : segments.flatten = response.encode)
    (hne : ∀ segment ∈ segments, segment ≠ []) {chunk : Chunk}
    (hfirst : response.FirstCut segments chunk)
    (hunreadable : chunk.Unreadable) :
    NeverEarly entry segments := by
  refine neverEarly_of_prefixes hne ?_
  rintro before after p rfl _ hrun hstate
  obtain ⟨final, hfinal, hnot⟩ :=
    HttpParser.feedAll_firstCut hlimit ((List.append_nil _).trans hcut)
      hfirst hunreadable
  rw [HttpParser.feedAll_append hrun
    (HttpParser.feedAll_of_stopped (.inr hstate) after),
    Option.some.injEq] at hfinal
  exact hnot (hfinal ▸ hstate)

/-- The message up to the last size line, and what follows it. -/
def lastLineCut (response : ChunkedResponse) : List Bytes :=
  [response.head.encode ++ encodeChunks response.chunks ++
      response.last.encode, response.trailerText]

theorem lastLineCut_early {response : ChunkedResponse}
    (hlimit : response.head.WithinLimit) (entry : PoolEntry) :
    response.lastLineCut.flatten = response.encode ∧
      (∀ segment ∈ response.lastLineCut, segment ≠ []) ∧
      ¬ NeverEarly entry response.lastLineCut := by
  have hcut : response.lastLineCut.flatten = response.encode := by
    simp [lastLineCut, encode, bodyText]
  have hne : ∀ segment ∈ response.lastLineCut, segment ≠ [] := by
    simp [lastLineCut, trailerText_ne_nil, SizeLine.encode, crlf]
  have hpos := List.length_pos_of_ne_nil response.trailerText_ne_nil
  have hends : ends 0 response.lastLineCut =
      [response.lastLineEnd, response.encode.length] := by
    simp [lastLineCut, lastLineEnd, encode, bodyText, Nat.add_assoc]
  have hsafe : ∀ n ∈ ends 0 response.lastLineCut,
      ¬ response.EndsInChunk n := by
    rw [hends]
    simp only [List.forall_mem_cons]
    refine ⟨not_endsInChunk_of_le ?_, not_endsInChunk_length response,
      by simp⟩
    rw [lastLineEnd]
    omega
  refine ⟨hcut, hne, fun hnever => ?_⟩
  refine (neverEarly_iff hlimit entry hcut hne hsafe).mp hnever
    response.lastLineEnd (by simp [hends]) ⟨le_rfl, ?_⟩
  rw [response.length_encode]
  omega

/-- As long as no call ends inside a chunk, completion is never early exactly
when no call ends between the last size line and the end of the message.  It is
never early either when the first chunk which is cut cannot be read.  Every
message has a segmentation under which its completion is early. -/
theorem neverEarly_of_segmentation {response : ChunkedResponse}
    (hlimit : response.head.WithinLimit) (entry : PoolEntry) :
    (∀ segments : List Bytes, segments.flatten = response.encode →
      (∀ segment ∈ segments, segment ≠ []) →
      (∀ n ∈ ends 0 segments, ¬ response.EndsInChunk n) →
        (NeverEarly entry segments ↔
          ∀ n ∈ ends 0 segments, ¬ response.EndsInTrailer n)) ∧
    (∀ (segments : List Bytes) (chunk : Chunk),
      segments.flatten = response.encode →
      (∀ segment ∈ segments, segment ≠ []) →
      response.FirstCut segments chunk → chunk.Unreadable →
        NeverEarly entry segments) ∧
    ∃ segments : List Bytes, segments.flatten = response.encode ∧
      (∀ segment ∈ segments, segment ≠ []) ∧
      ¬ NeverEarly entry segments :=
  ⟨fun _ hcut hne hsafe => neverEarly_iff hlimit entry hcut hne hsafe,
    fun _ _ hcut hne hfirst hunreadable =>
      neverEarly_of_firstCut hlimit entry hcut hne hfirst hunreadable,
    response.lastLineCut, lastLineCut_early hlimit entry⟩

theorem neverEarly_of_segmentation_hello :
    NeverEarly plainEntry [hello.encode] ∧
      ¬ NeverEarly plainEntry hello.lastLineCut :=
  ⟨((neverEarly_of_segmentation (show hello.head.WithinLimit by decide)
      plainEntry).1 _ (by simp) (by decide) (by decide)).mpr (by decide),
    fun hnever =>
      absurd (((neverEarly_of_segmentation
        (show hello.head.WithinLimit by decide) plainEntry).1 _ (by decide)
          (by decide) (by decide)).mp hnever)
        (by decide)⟩

theorem not_neverEarly_hello :
    ¬ ∀ (response : ChunkedResponse) (entry : PoolEntry)
        (segments : List Bytes),
      response.head.WithinLimit → segments.flatten = response.encode →
      (∀ segment ∈ segments, segment ≠ []) →
      NeverEarly entry segments := by
  intro hall
  have hnever := (hall hello plainEntry hello.lastLineCut (by decide)
    (by decide) (by decide)).1
  obtain ⟨p, hrun, hstate⟩ : ∃ p,
      HttpParser.new.feedAll (hello.lastLineCut.take 1) = some p ∧
        p.state = .complete := by
    have hcomplete : (HttpParser.new.feedAll
        (hello.lastLineCut.take 1)).map HttpParser.state =
          some .complete := by decide +kernel
    exact Option.map_eq_some_iff.mp hcomplete
  exact hnever (hello.lastLineCut.take 1) (hello.lastLineCut.drop 1) p rfl
    (by decide) hrun hstate

end ChunkedResponse

end VynxHttp

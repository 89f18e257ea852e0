import NemSigner.CommandLine.Outcome
import NemSigner.Proofs.Apdu.Requests
import NemSigner.Proofs.Session.Signing

/-!
# Transactions cut into requests

The host cuts a transaction from the front, one request at a time, until nothing is left. The device
reads back what was cut: the path, the chunks in their order, and which of them is the last.

## Main definitions

- `Cutter`, `Cutter.next?` — what is still to be cut, and the next request
- `Cutter.Gives` — all requests that are cut, one after the other
- `SignRequest.delivery` — the requests that send given chunks
- `SignRequest.Pieces` — how bytes are cut

## Main statements

- `Cutter.gives_unique` — what is cut is determined
- `SignRequest.exists_delivery` — cutting ends, and the chunks of the transaction are what was cut
- `SignRequest.mapM_understood_delivery` — the device reads a delivery as it was written
- `SignRequest.chunks_inverse` — the requests for a transaction, and what the device makes of them
-/

namespace NemSigner

/-- What is still to be cut: the path until the first request has taken it, the bytes that are left,
and whether the first request is still to come. -/
structure Cutter where
  path : Option DerivationPath
  rest : Bytes
  isFresh : Bool
  deriving DecidableEq, Repr

namespace Cutter

def start (path : DerivationPath) (transaction : Bytes) : Cutter :=
  ⟨some path, transaction, true⟩

/-- A cutter whose first request is gone. -/
def behind (rest : Bytes) : Cutter :=
  ⟨none, rest, false⟩

/-- The bytes that the next request has room for. -/
def capacity (cutter : Cutter) : Nat :=
  match cutter.path with
  | some path => Limits.maxPayloadLength - 1 - path.depth * 4
  | none => Limits.maxPayloadLength

/-- How many bytes the next request takes. -/
def count (cutter : Cutter) : Nat :=
  min cutter.rest.length cutter.capacity

/-- The next request, which says whether anything is left behind it. -/
def request (cutter : Cutter) : SignRequest :=
  let data := cutter.rest.take cutter.count
  let more := !(cutter.rest.drop cutter.count).isEmpty
  match cutter.path with
  | some path => .first path data more
  | none => .next data more

/-- The next request, and what is still to be cut behind it. -/
def next? (cutter : Cutter) : Option (SignRequest × Cutter) :=
  if !cutter.isFresh && cutter.rest.isEmpty then none
  else some (cutter.request, behind (cutter.rest.drop cutter.count))

/-- Asked until it has no more, a cutter gives these requests. -/
inductive Gives : Cutter → List SignRequest → Prop
  | done {cutter : Cutter} (h : cutter.next? = none) : Gives cutter []
  | more {cutter next : Cutter} {request : SignRequest} {requests : List SignRequest}
      (h : cutter.next? = some (request, next)) (hrest : Gives next requests) :
      Gives cutter (request :: requests)

variable {cutter : Cutter} {requests requests' : List SignRequest}

/-- What a cutter gives is determined. -/
theorem gives_unique (h : cutter.Gives requests) (h' : cutter.Gives requests') :
    requests = requests' := by
  induction h generalizing requests' with
  | done hnone =>
    cases h' with
    | done => rfl
    | more hsome => rw [hnone] at hsome; cases hsome
  | more hsome _ ih =>
    cases h' with
    | done hnone => rw [hnone] at hsome; cases hsome
    | more hsome' hrest =>
      rw [hsome] at hsome'
      cases hsome'
      rw [ih hrest]

theorem take_count (cutter : Cutter) :
    cutter.rest.take cutter.count = cutter.rest.take cutter.capacity := by
  rw [count, Nat.min_comm, ← List.take_eq_take_min]

theorem drop_count (cutter : Cutter) :
    cutter.rest.drop cutter.count = cutter.rest.drop cutter.capacity := by
  rw [count, Nat.min_comm, ← List.drop_eq_drop_min]

/-- The first request takes what the path leaves free. -/
theorem next?_start (path : DerivationPath) (transaction : Bytes) :
    (start path transaction).next? =
      let free := Limits.maxPayloadLength - path.encodedLength
      some (.first path (transaction.take free) (!(transaction.drop free).isEmpty),
        behind (transaction.drop free)) := by
  have hcapacity : (start path transaction).capacity =
      Limits.maxPayloadLength - path.encodedLength := by
    simp only [capacity, start, DerivationPath.encodedLength]
    omega
  rw [next?, request, take_count, drop_count, hcapacity]
  rfl

theorem next?_behind_nil : (behind []).next? = none :=
  rfl

/-- Every other request is as full as can be. -/
theorem next?_behind {rest : Bytes} (hrest : rest ≠ []) :
    (behind rest).next? =
      some (.next (rest.take Limits.maxPayloadLength)
          (!(rest.drop Limits.maxPayloadLength).isEmpty),
        behind (rest.drop Limits.maxPayloadLength)) := by
  have hmore : (!(behind rest).isFresh && (behind rest).rest.isEmpty) = false :=
    Bool.eq_false_iff.mpr (mt List.isEmpty_iff.mp hrest)
  rw [next?, hmore, request, take_count, drop_count]
  rfl

end Cutter

namespace SignRequest

/-- The requests that send further chunks; all but the last say that more follow. -/
def announced : List Bytes → List SignRequest
  | [] => []
  | chunk :: rest => next chunk (!rest.isEmpty) :: announced rest

/-- The requests that send all chunks of a transaction; all but the last say that more follow. -/
def delivery (path : DerivationPath) (first : Bytes) (others : List Bytes) : List SignRequest :=
  .first path first (!others.isEmpty) :: announced others

/-- Bytes in pieces none of which is empty, and all but the last of which fill a payload. -/
structure Pieces (data : Bytes) (chunks : List Bytes) : Prop where
  whole : chunks.flatten = data
  bounded : ∀ chunk ∈ chunks, chunk ≠ [] ∧ chunk.length ≤ Limits.maxPayloadLength
  full : ∀ chunk ∈ chunks.dropLast, chunk.length = Limits.maxPayloadLength

variable {path : DerivationPath} {data chunk : Bytes} {others : List Bytes}

theorem Pieces.eq_nil_iff (h : Pieces data others) : others = [] ↔ data = [] := by
  constructor
  · rintro rfl
    exact h.whole.symm
  · rintro rfl
    refine List.eq_nil_iff_forall_not_mem.mpr fun chunk hchunk => ?_
    exact (h.bounded chunk hchunk).1 (List.flatten_eq_nil_iff.mp h.whole chunk hchunk)

theorem pieces_nil : Pieces [] [] where
  whole := rfl
  bounded := nofun
  full := nofun

/-- One more full piece stands in front, or the whole is one piece. -/
theorem Pieces.cons (h : Pieces (data.drop Limits.maxPayloadLength) others) (hdata : data ≠ []) :
    Pieces data (data.take Limits.maxPayloadLength :: others) where
  whole := by rw [List.flatten_cons, h.whole, List.take_append_drop]
  bounded := by
    refine List.forall_mem_cons.mpr ⟨⟨?_, List.length_take_le _ _⟩, h.bounded⟩
    exact mt List.take_eq_nil_iff.mp (not_or.mpr ⟨by decide, hdata⟩)
  full := by
    cases others with
    | nil => exact nofun
    | cons other others =>
      rw [List.dropLast_cons_cons]
      refine List.forall_mem_cons.mpr ⟨?_, h.full⟩
      have hmore : data.drop Limits.maxPayloadLength ≠ [] :=
        fun hnil => List.cons_ne_nil _ _ (h.eq_nil_iff.mpr hnil)
      have hlong := Nat.le_of_not_le (mt List.drop_eq_nil_iff.mpr hmore)
      exact List.length_take_of_le hlong

/-- The number of full pieces goes down by one with each of them. -/
theorem pieceCount_of_ne_nil (hdata : data ≠ []) :
    pieceCount Limits.maxPayloadLength data.length =
      pieceCount Limits.maxPayloadLength (data.drop Limits.maxPayloadLength).length + 1 := by
  have hpositive : 0 < data.length := List.length_pos_iff.mpr hdata
  simp only [pieceCount, List.length_drop, Limits.maxPayloadLength]
  omega

theorem pieceCount_eq_zero (h : pieceCount Limits.maxPayloadLength data.length = 0) :
    data = [] := by
  refine Decidable.byContradiction fun hdata => ?_
  rw [pieceCount_of_ne_nil hdata] at h
  cases h

/-- What is left behind the first request is cut into pieces. -/
theorem exists_pieces {count : Nat}
    (hcount : pieceCount Limits.maxPayloadLength data.length = count) :
    ∃ others, Pieces data others ∧ continuations count data = announced others ∧
      (Cutter.behind data).Gives (announced others) := by
  -- One piece less is left with every turn.
  induction count generalizing data with
  | zero =>
    obtain rfl := pieceCount_eq_zero hcount
    exact ⟨[], pieces_nil, rfl, .done Cutter.next?_behind_nil⟩
  | succ count ih =>
    have hdata : data ≠ [] := by
      rintro rfl
      cases hcount
    rw [pieceCount_of_ne_nil hdata] at hcount
    obtain ⟨others, hpieces, hcontinuations, hgives⟩ := ih (Nat.succ.inj hcount)
    have hmore : (data.drop Limits.maxPayloadLength).isEmpty = others.isEmpty := by
      rw [Bool.eq_iff_iff, List.isEmpty_iff, List.isEmpty_iff, hpieces.eq_nil_iff]
    refine ⟨data.take Limits.maxPayloadLength :: others, hpieces.cons hdata, ?_, ?_⟩
    · rw [continuations, hcontinuations, hmore, announced]
    · rw [announced, ← hmore]
      exact .more (Cutter.next?_behind hdata) hgives

theorem map_data_announced (others : List Bytes) : (announced others).map (·.data) = others := by
  induction others with
  | nil => rfl
  | cons chunk others ih => rw [announced, List.map_cons, ih]; rfl

theorem data_mem_of_announced {request : SignRequest} (h : request ∈ announced others) :
    request.data ∈ others :=
  map_data_announced others ▸ List.mem_map_of_mem h

theorem data_mem_dropLast_of_announced {request : SignRequest}
    (h : request ∈ (announced others).dropLast) : request.data ∈ others.dropLast := by
  have hdata := List.mem_map_of_mem (f := SignRequest.data) h
  rwa [List.map_dropLast, map_data_announced] at hdata

/-- Further chunks are sent without a path. -/
theorem eq_next_of_announced {request : SignRequest} (h : request ∈ announced others) :
    ∃ more, request = next request.data more := by
  induction others with
  | nil => cases h
  | cons chunk others ih =>
    rcases List.mem_cons.mp h with rfl | h
    · exact ⟨_, rfl⟩
    · exact ih h

theorem encodedLength_of_announced {request : SignRequest} (h : request ∈ announced others) :
    request.encodedLength = request.data.length := by
  obtain ⟨more, hnext⟩ := eq_next_of_announced h
  rw [hnext]
  rfl

theorem wellFormed_of_delivery (hnamed : path.elements ≠ []) {request : SignRequest}
    {first : Bytes} (h : request ∈ delivery path first others) : request.WellFormed := by
  rcases List.mem_cons.mp h with rfl | h
  · exact first_wellFormed hnamed _ _
  · obtain ⟨more, hnext⟩ := eq_next_of_announced h
    rw [hnext]
    exact next_wellFormed _ _

/-- What the device makes of the payload of a request. -/
def understood (request : SignRequest) : Except SessionError Event :=
  Event.ofCommand (Coded.code Instruction.sign).toUInt8 request.flags.toByte request.toBytes

theorem mapM_understood_announced (others : List Bytes) :
    (announced others).mapM understood = .ok (Event.continuations others) := by
  induction others with
  | nil => rfl
  | cons chunk others ih =>
    have hchunk := Event.ofCommand_toBytes (next_wellFormed chunk (!others.isEmpty))
    rw [announced, List.mapM_cons, understood, hchunk, ih]
    rfl

/-- The device reads a delivery as it was written. -/
theorem mapM_understood_delivery (hnamed : path.elements ≠ []) (first : Bytes)
    (others : List Bytes) :
    (delivery path first others).mapM understood = .ok (Event.delivery path first others) := by
  have hfirst := Event.ofCommand_toBytes (first_wellFormed hnamed first (!others.isEmpty))
  rw [delivery, List.mapM_cons, understood, hfirst, mapM_understood_announced]
  rfl

/-- The bytes that a path leaves free in the first payload. -/
def room (path : DerivationPath) : Nat :=
  Limits.maxPayloadLength - path.encodedLength

theorem encodedLength_add_room (path : DerivationPath) :
    room path + path.encodedLength = Limits.maxPayloadLength := by
  refine Nat.sub_add_cancel ?_
  have hdepth := path.depth_le
  simp only [DerivationPath.encodedLength, DerivationPath.depth, Limits.maxPathDepth,
    Limits.maxPayloadLength] at hdepth ⊢
  omega

/-- A transaction is sent in the piece that has room behind the path, and in pieces of what is
left. -/
theorem exists_delivery (path : DerivationPath) (transaction : Bytes) :
    ∃ others, Pieces (transaction.drop (room path)) others ∧
      chunks path transaction = delivery path (transaction.take (room path)) others ∧
      (Cutter.start path transaction).Gives (chunks path transaction) := by
  obtain ⟨others, hpieces, hcontinuations, hgives⟩ :=
    exists_pieces (rfl : pieceCount _ (transaction.drop (room path)).length = _)
  have hmore : (transaction.drop (room path)).isEmpty = others.isEmpty := by
    rw [Bool.eq_iff_iff, List.isEmpty_iff, List.isEmpty_iff, hpieces.eq_nil_iff]
  have hchunks : chunks path transaction = delivery path (transaction.take (room path)) others := by
    rw [delivery, ← hmore, ← hcontinuations]
    rfl
  refine ⟨others, hpieces, hchunks, ?_⟩
  rw [hchunks, delivery, ← hmore]
  exact .more (Cutter.next?_start path transaction) hgives

theorem encodedLength_le_of_delivery {first : Bytes} (hpieces : Pieces data others)
    (hfirst : first.length ≤ room path) {request : SignRequest}
    (h : request ∈ delivery path first others) :
    request.encodedLength ≤ Limits.maxPayloadLength := by
  rcases List.mem_cons.mp h with rfl | h
  · exact encodedLength_add_room path ▸ Nat.add_le_add_right hfirst _
  · rw [encodedLength_of_announced h]
    exact (hpieces.bounded _ (data_mem_of_announced h)).2

/-- A delivery that goes on behind its first request fills it, and all others but the last. -/
theorem encodedLength_eq_of_delivery {first : Bytes} (hpieces : Pieces data others)
    (hfirst : data ≠ [] → first.length = room path) {request : SignRequest}
    (h : request ∈ (delivery path first others).dropLast) :
    request.encodedLength = Limits.maxPayloadLength := by
  cases others with
  | nil => cases h
  | cons chunk others =>
    have hdata : data ≠ [] := fun hnil => List.cons_ne_nil _ _ (hpieces.eq_nil_iff.mpr hnil)
    rw [delivery, announced, List.dropLast_cons_cons, ← announced] at h
    rcases List.mem_cons.mp h with rfl | h
    · exact encodedLength_add_room path ▸ congrArg (· + path.encodedLength) (hfirst hdata)
    · rw [encodedLength_of_announced (List.dropLast_subset _ h)]
      exact hpieces.full _ (data_mem_dropLast_of_announced h)

/-- The requests for a transaction are as many as are cut from it. All are written into the room
that a command has for them, and all but the last fill a payload. The device reads them as a
delivery of the transaction on the path, in which only the first chunk can be empty. -/
theorem chunks_inverse (hnamed : path.elements ≠ []) (transaction : Bytes) :
    (∀ requests, (Cutter.start path transaction).Gives requests ↔
      requests = chunks path transaction) ∧
    (∀ request ∈ chunks path transaction,
      request.encode Command.chunkCapacity = .ok request.toBytes ∧
      request.toBytes.length = request.encodedLength ∧
      request.encodedLength ≤ Limits.maxPayloadLength) ∧
    (∀ request ∈ (chunks path transaction).dropLast,
      request.encodedLength = Limits.maxPayloadLength) ∧
    ∃ first others,
      (chunks path transaction).map (·.data) = first :: others ∧
      (chunks path transaction).mapM understood = .ok (Event.delivery path first others) ∧
      first ++ others.flatten = transaction ∧
      (∀ chunk ∈ others, chunk ≠ []) ∧ (transaction = [] → others = []) := by
  obtain ⟨others, hpieces, hchunks, hgives⟩ := exists_delivery path transaction
  have hshort : (transaction.take (room path)).length ≤ room path := List.length_take_le _ _
  have hfull (hmore : transaction.drop (room path) ≠ []) :
      (transaction.take (room path)).length = room path :=
    List.length_take_of_le (Nat.le_of_not_le (mt List.drop_eq_nil_iff.mpr hmore))
  refine ⟨fun requests => ⟨fun h => Cutter.gives_unique h hgives, fun h => h ▸ hgives⟩, ?_, ?_,
    transaction.take (room path), others, ?_, ?_, ?_, ?_, ?_⟩
  · intro request hrequest
    rw [hchunks] at hrequest
    have hle := encodedLength_le_of_delivery hpieces hshort hrequest
    have hvalid := wellFormed_of_delivery hnamed hrequest
    exact ⟨encode_of_le hvalid (Nat.le_succ_of_le hle), request.length_toBytes, hle⟩
  · intro request hrequest
    rw [hchunks] at hrequest
    exact encodedLength_eq_of_delivery hpieces hfull hrequest
  · rw [hchunks, delivery, List.map_cons, map_data_announced]
    rfl
  · rw [hchunks, mapM_understood_delivery hnamed]
  · rw [hpieces.whole, List.take_append_drop]
  · exact fun chunk hchunk => (hpieces.bounded chunk hchunk).1
  · rintro rfl
    exact hpieces.eq_nil_iff.mpr List.drop_nil

/-- Five hundred bytes are sent in three requests. -/
theorem chunks_inverse_testPath :
    Station.testPath.elements ≠ [] ∧
    (chunks Station.testPath (List.replicate 500 0x61)).length = 3 ∧
    ∃ first others,
      (chunks Station.testPath (List.replicate 500 0x61)).map (·.data) = first :: others ∧
      (chunks Station.testPath (List.replicate 500 0x61)).mapM understood =
        .ok (Event.delivery Station.testPath first others) ∧
      first ++ others.flatten = List.replicate 500 0x61 := by
  have hnamed : Station.testPath.elements ≠ [] := by decide
  obtain ⟨-, -, -, first, others, hdata, hread, hwhole, -, -⟩ :=
    chunks_inverse hnamed (List.replicate 500 0x61)
  exact ⟨hnamed, by decide +kernel, first, others, hdata, hread, hwhole⟩

end SignRequest

end NemSigner

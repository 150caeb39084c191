/-
  `FillHeadForRequest` in Network/tiny_client/main.cpp, and the stream of the
  frames.

  A frame is a head of 8 bytes and the request; its length stands in the head,
  in 16 bits, and says how much of the buffer is sent.  `frame_eq`: these are
  the first bytes of the head and the request, as many as the 16 bits say.
  `readFrames_iff`: a reader that cuts the stream by the lengths in the heads
  gets the requests back exactly if all lengths fit into 16 bits.
-/
import CppExperiment.Lib.LittleEndian

namespace CppExperiment.TinyClient

/-- A `std::string`. -/
abbrev Str := List UInt8

/-! ## The head -/

/-- `PB_FrameHead` -/
structure PBFrameHead where
  sign : UInt8
  crypt : BitVec 2
  unused : BitVec 6
  packageNum : UInt8
  packageNo : UInt8
  checkCode : UInt16
  packageSize : UInt16

/-- `sizeof(PB_FrameHead)` -/
def sizeofHead : ℕ := 8

namespace PBFrameHead

/-- The bytes of a head, without padding. -/
def bytes (h : PBFrameHead) : Str :=
  [h.sign, .ofBitVec (h.unused ++ h.crypt), h.packageNum, h.packageNo] ++
    (wordBytes h.checkCode ++ wordBytes h.packageSize)

/-- The head that some bytes are. -/
def ofBytes : Str → Option PBFrameHead
  | [sign, bits, packageNum, packageNo, c, c', p, p'] =>
    some ⟨sign, bits.toBitVec.extractLsb' 0 2, bits.toBitVec.extractLsb' 2 6, packageNum,
      packageNo, word c c', word p p'⟩
  | _ => none

theorem length_bytes (h : PBFrameHead) : h.bytes.length = sizeofHead := rfl

/-- **A head in its bytes.** -/
theorem ofBytes_bytes (h : PBFrameHead) : ofBytes h.bytes = some h := by
  have hcrypt : (h.unused ++ h.crypt).extractLsb' 0 2 = h.crypt :=
    BitVec.extractLsb'_append_eq_right
  have hunused : (h.unused ++ h.crypt).extractLsb' 2 6 = h.unused :=
    BitVec.extractLsb'_append_eq_left
  rw [bytes, wordBytes, wordBytes]
  simp only [List.cons_append, List.nil_append, ofBytes, word_bytes]
  exact congrArg some (by rw [hcrypt, hunused])

end PBFrameHead

/-! ## One frame -/

/-- The head of a request. -/
def headForRequest (request : Str) : PBFrameHead where
  sign := 69
  crypt := 0
  unused := 0
  packageNum := 1
  packageNo := 0
  checkCode := 0
  packageSize := .ofNat (request.length + sizeofHead)

/-- `FillHeadForRequest(request, realRequest, reqSize)`, with the value that it
    gives to `reqSize`. -/
def fillHeadForRequest (request : Str) (m : Mem) (realRequest : ℕ) : Option (Mem × ℕ) := do
  let head := headForRequest request
  let m ← m.storeAll realRequest 0 head.bytes
  let m ← m.storeAll realRequest sizeofHead request
  some (m, head.packageSize.toNat)

/-- A call of `FillHeadForRequest` with a buffer that is large enough. -/
structure Call where
  request : Str
  m : Mem
  realRequest : ℕ
  room : sizeofHead + request.length ≤ (m realRequest).length

/-- The frame: as many bytes of the buffer as are reported. -/
def Call.frame (call : Call) : Option Str := do
  let (m, reqSize) ← fillHeadForRequest call.request call.m call.realRequest
  m.loadAll call.realRequest 0 reqSize

/-- What a frame is. -/
def frameOf (request : Str) : Str :=
  ((headForRequest request).bytes ++ request).take (headForRequest request).packageSize.toNat

variable {request r : Str} {requests : List Str} {calls : List Call} {stream : Str} {n : ℕ}

theorem toNat_packageSize (request : Str) :
    (headForRequest request).packageSize.toNat = (request.length + sizeofHead) % 65536 :=
  UInt16.toNat_ofNat'

theorem length_frameOf (request : Str) :
    (frameOf request).length = (request.length + sizeofHead) % 65536 := by
  rw [frameOf, List.length_take, List.length_append, PBFrameHead.length_bytes, toNat_packageSize]
  have := Nat.mod_le (request.length + sizeofHead) 65536
  omega

/-- **The frame of a call.** -/
theorem frame_eq (call : Call) : call.frame = some (frameOf call.request) := by
  obtain ⟨request, m, b, room⟩ := call
  have hhead := @Mem.storeAll_put m b 0 [] (headForRequest request).bytes rfl
    ((Nat.zero_add _).trans_le (Nat.le_of_add_right_le room))
  have hrequest := @Mem.storeAll_put m b sizeofHead (headForRequest request).bytes request rfl room
  have hat : (m.put b ((headForRequest request).bytes ++ request)).At b 0 (frameOf request) :=
    (List.take_prefix _ _).trans Mem.at_put
  have hload := hat.loadAll
  rw [Mem.put_nil, List.nil_append] at hhead
  rw [length_frameOf, ← toNat_packageSize] at hload
  rw [Call.frame, fillHeadForRequest]
  simp only [hhead, hrequest, Option.bind_eq_bind, Option.bind_some, hload]

/-- The frame of a request that is not too long. -/
theorem frameOf_eq (h : request.length + sizeofHead < 65536) :
    frameOf request = (headForRequest request).bytes ++ request := by
  rw [frameOf, toNat_packageSize, Nat.mod_eq_of_lt h, List.take_of_length_le]
  rw [List.length_append, PBFrameHead.length_bytes, Nat.add_comm]

/-! ## The stream -/

/-- A reader of the stream, for at most `n` frames: it takes a head, and then
    the rest of the frame, whose length stands in the head.  `none` if there is
    no whole frame, or its length is too small for the head. -/
def readLoop : (n : ℕ) → (stream : Str) → Option (List Str)
  | 0, stream => if stream.isEmpty then some [] else none
  | n + 1, stream =>
    if stream.isEmpty then some []
    else do
      let head ← PBFrameHead.ofBytes (stream.take sizeofHead)
      let size := head.packageSize.toNat
      if size < sizeofHead ∨ stream.length < size then none
      else do
        let requests ← readLoop n (stream.drop size)
        some ((stream.take size).drop sizeofHead :: requests)

/-- The requests that are read from a stream. -/
def readFrames (stream : Str) : Option (List Str) := readLoop stream.length stream

theorem readLoop_nil (n : ℕ) : readLoop n [] = some [] := by
  cases n <;> rfl

/-- The first frame of a stream. -/
theorem readLoop_frameOf (h : r.length + sizeofHead < 65536) :
    readLoop (n + 1) (frameOf r ++ stream) = (readLoop n stream).map (r :: ·) := by
  have hsize := toNat_packageSize r
  have hlen := length_frameOf r
  rw [Nat.mod_eq_of_lt h] at hsize hlen
  have hpos : 0 < sizeofHead := by decide
  have hne : ¬ (frameOf r ++ stream).isEmpty = true := by
    rw [List.isEmpty_iff, ← List.length_eq_zero_iff, List.length_append]
    omega
  have hhead : (frameOf r ++ stream).take sizeofHead = (headForRequest r).bytes := by
    rw [frameOf_eq h, List.append_assoc, List.take_left' (PBFrameHead.length_bytes _)]
  have hroom : ¬ (r.length + sizeofHead < sizeofHead ∨
      (frameOf r ++ stream).length < r.length + sizeofHead) := by
    rw [List.length_append]; omega
  have hbody : (frameOf r).drop sizeofHead = r := by
    rw [frameOf_eq h, List.drop_left' (PBFrameHead.length_bytes _)]
  rw [readLoop, if_neg hne, hhead, PBFrameHead.ofBytes_bytes, Option.bind_eq_bind,
    Option.bind_some]
  dsimp only
  rw [hsize, if_neg hroom, List.drop_left' hlen, List.take_left' hlen, hbody]
  cases readLoop n stream <;> rfl

/-- **Short requests are read back.** -/
theorem readLoop_flatten (h : ∀ r ∈ requests, r.length + sizeofHead < 65536)
    (hn : requests.length ≤ n) :
    readLoop n (requests.map frameOf).flatten = some requests := by
  induction requests generalizing n with
  | nil => exact readLoop_nil n
  | cons r requests ih =>
    rw [List.forall_mem_cons] at h
    obtain ⟨n, rfl⟩ := Nat.exists_eq_succ_of_ne_zero (Nat.ne_zero_of_lt hn)
    rw [List.map_cons, List.flatten_cons, readLoop_frameOf h.1,
      ih h.2 (Nat.le_of_succ_le_succ hn), Option.map_some]

/-- The length of what is read. -/
def totalSize (requests : List Str) : ℕ := (requests.map (·.length + sizeofHead)).sum

/-- **All bytes are read**: the requests and their heads are as long as the
    stream. -/
theorem length_of_readLoop (h : readLoop n stream = some requests) :
    stream.length = totalSize requests := by
  induction n generalizing stream requests with
  | zero =>
    rw [readLoop] at h
    split_ifs at h with hs
    cases h
    rw [List.isEmpty_iff.1 hs]
    rfl
  | succ n ih =>
    rw [readLoop] at h
    split_ifs at h with hs
    · cases h
      rw [List.isEmpty_iff.1 hs]
      rfl
    simp only [Option.bind_eq_bind, Option.bind_eq_some_iff] at h
    obtain ⟨head, -, h⟩ := h
    split_ifs at h with hsize
    obtain ⟨rest, hrest, h⟩ := Option.bind_eq_some_iff.1 h
    cases h
    have ih := ih hrest
    rw [List.length_drop] at ih
    rw [totalSize, List.map_cons, List.sum_cons, ← totalSize, ← ih, List.length_drop,
      List.length_take]
    omega

/-- The length of the stream. -/
theorem length_flatten_frames (requests : List Str) :
    (requests.map frameOf).flatten.length =
      (requests.map fun r => (r.length + sizeofHead) % 65536).sum := by
  rw [List.length_flatten, List.map_map]
  exact congrArg List.sum (List.map_congr_left fun r _ => length_frameOf r)

theorem mapM_frame (calls : List Call) :
    calls.mapM Call.frame = some ((calls.map Call.request).map frameOf) := by
  have hframe : Call.frame = fun call => pure (frameOf call.request) := funext frame_eq
  rw [hframe, List.mapM_pure, List.map_map]
  rfl

/-- **The reader on any requests**: it gets them exactly if their lengths fit
    into 16 bits. -/
theorem readFrames_flatten (requests : List Str) :
    readFrames (requests.map frameOf).flatten = some requests ↔
      ∀ r ∈ requests, r.length + sizeofHead < 65536 := by
  have hstream := length_flatten_frames requests
  constructor
  · intro h
    have htotal := length_of_readLoop h
    by_contra! hlong
    obtain ⟨r, hr, hlong⟩ := hlong
    -- a longer request loses bytes on the way
    have hlt : (requests.map fun r => (r.length + sizeofHead) % 65536).sum <
        totalSize requests :=
      List.sum_lt_sum _ _ (fun r _ => Nat.mod_le _ _)
        ⟨r, hr, (Nat.mod_lt _ (by decide)).trans_le hlong⟩
    omega
  · intro h
    refine readLoop_flatten h ?_
    rw [hstream, ← List.length_map fun r : Str => (r.length + sizeofHead) % 65536]
    refine List.length_le_sum_of_one_le _ fun k hk => ?_
    obtain ⟨r, hr, rfl⟩ := List.mem_map.1 hk
    have hr := h r hr
    rw [Nat.mod_eq_of_lt hr]
    exact Nat.le_add_left 1 (r.length + 7)

/-- **Reading the frames back.**  A reader that goes by the lengths in the
    heads gets the requests exactly if every length fits into its 16 bits: no
    request has more than 65527 bytes. -/
theorem readFrames_iff (calls : List Call) : ∃ frames, calls.mapM Call.frame = some frames ∧
    (readFrames frames.flatten = some (calls.map Call.request) ↔
      ∀ call ∈ calls, call.request.length ≤ 65527) := by
  refine ⟨_, mapM_frame calls, ?_⟩
  rw [readFrames_flatten, List.forall_mem_map]
  refine forall₂_congr fun call _ => ?_
  rw [sizeofHead]
  omega

/-- A request of 65528 bytes: nothing of it is sent. -/
def longCall : Call where
  request := List.replicate 65528 0
  m := fun _ => List.replicate 65536 0
  realRequest := 0
  room := by rw [List.length_replicate, List.length_replicate]; decide

theorem not_readFrames : ¬ ∀ calls : List Call, ∃ frames, calls.mapM Call.frame = some frames ∧
    readFrames frames.flatten = some (calls.map Call.request) := by
  intro h
  obtain ⟨frames, hframes, hread⟩ := h [longCall]
  have hrequest : longCall.request.length = 65528 := List.length_replicate
  have hlen : (frameOf longCall.request).length = 0 := by
    rw [length_frameOf, hrequest, sizeofHead]
  rw [mapM_frame, Option.some_inj] at hframes
  subst hframes
  rw [List.map_singleton, List.map_singleton, List.flatten_singleton,
    List.length_eq_zero_iff.1 hlen] at hread
  cases hread

end CppExperiment.TinyClient

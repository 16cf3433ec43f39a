import LinuxFileManager.Protocol.Codec

/-!
# The receive loop of `client_worker`

Model of `client_worker` (`src/gateway.c` lines 472–559) up to the point where
a parsed message is dispatched: the fixed receive buffer, the inner loop over
the frames in it, and the `memmove` of what is left. What happens with a
message is the parameter `dispatch`, a function on a state of type `σ`
(`Gateway.Dispatch` instantiates it).

One iteration of `while (ctx->running)` is `ClientWorker.iterate`, driven by
what the iteration finds (`Event`). `Delivers` runs it on a byte stream that
arrives in arbitrary blocks.

Results:

* `Delivers.refines`: the loop over buffers and offsets is an instance of
  `Lib.Delivers`, with the bytes in the buffer as the data held.
* `chunking_independent`: messages, residue and closing do not depend on how
  the stream is cut into blocks.
-/

namespace LinuxFileManager.Gateway

open Lib Protocol

/-! ## Model -/

/-- `sizeof(recv_buf)` (line 478). -/
def recvBufSize : ℕ := protoFrameMax * 4

/-- The locals of `client_worker` that live across iterations, the state that
    the dispatcher works on, and whether the loop has been left. -/
structure ClientWorker (σ : Type) where
  recvBuf : Buffer UInt8 recvBufSize
  recvLen : ℕ
  recvLen_le : recvLen ≤ recvBufSize - 1
  state : σ
  closed : Bool

/-- The space offered to `recv`: `sizeof(recv_buf) - recv_len - 1` (line 498). -/
def offered (recvLen : ℕ) : ℕ := recvBufSize - recvLen - 1

/-- What one iteration of `while (ctx->running)` finds; `space` is what it
    would offer to `recv`. -/
inductive Event (space : ℕ) where
  /-- `ctx->running` is zero. -/
  | stopped
  /-- `select` fails with anything but `EINTR`. -/
  | selectError
  /-- `select` times out, or is interrupted. -/
  | notReady
  /-- `recv` returns `-1`. -/
  | recvError
  /-- `recv` returns the length of `block`, `0` included. -/
  | received (block : List UInt8) (h : block.length ≤ space)

section

variable {σ : Type} (dispatch : σ → ProtoMessage → σ)

/-- `while (offset < recv_len) { ... }` (lines 506–546) from a given offset.
    `fuel` bounds the number of iterations; `parseLoop_scans` shows that
    `recv_len` of them suffice. -/
def parseLoop (recvBuf : Buffer UInt8 recvBufSize) (recvLen : ℕ) : ℕ → ℕ → σ → σ × ℕ
  | 0, offset, st => (st, offset)
  | fuel + 1, offset, st =>
    if offset < recvLen then
      match protoParseFrame (recvBuf.read offset (recvLen - offset)) with
      | .frame frameLen msg => parseLoop recvBuf recvLen fuel (offset + frameLen) (dispatch st msg)
      | .more => (st, offset)
      | .bad => parseLoop recvBuf recvLen fuel (offset + 1) st
    else (st, offset)

namespace ClientWorker

/-- A worker before its first iteration; `recv_buf` is not initialised. -/
def start (recvBuf : Buffer UInt8 recvBufSize) (st : σ) : ClientWorker σ :=
  ⟨recvBuf, 0, Nat.zero_le _, st, false⟩

/-- The code behind a successful `recv` (lines 502–551). -/
def receive (w : ClientWorker σ) (block : List UInt8) (h : block.length ≤ offered w.recvLen) :
    ClientWorker σ :=
  have hle := w.recvLen_le
  have hfit : w.recvLen + block.length ≤ recvBufSize - 1 := by unfold offered at h; omega
  let recvBuf := w.recvBuf.write w.recvLen block (by omega)
  let recvLen := w.recvLen + block.length
  let parsed := parseLoop dispatch recvBuf recvLen recvLen 0 w.state
  let offset := parsed.2
  { recvBuf :=
      if hmove : 0 < offset ∧ offset < recvLen then
        recvBuf.moveDown offset (recvLen - offset) (by omega)
      else recvBuf
    recvLen := recvLen - offset
    recvLen_le := by omega
    state := parsed.1
    closed := false }

/-- One iteration of `while (ctx->running)` (lines 483–552). -/
def iterate (w : ClientWorker σ) : Event (offered w.recvLen) → ClientWorker σ
  | .stopped | .selectError | .recvError => { w with closed := true }
  | .notReady => w
  | .received block h =>
    if block.length = 0 then { w with closed := true } else w.receive dispatch block h

/-- The bytes in the receive buffer. -/
def data (w : ClientWorker σ) : List UInt8 := w.recvBuf.read 0 w.recvLen

end ClientWorker

/-- `Delivers dispatch w xs w'`: the bytes `xs` arrive at the worker `w` in
    blocks of any size that `recv` can return, and leave it as `w'`. When the
    buffer is full and bytes are pending, `select` reports the socket readable
    and `recv` with no space returns `0`. -/
inductive Delivers : ClientWorker σ → List UInt8 → ClientWorker σ → Prop
  | idle (w : ClientWorker σ) : Delivers w [] w
  | notReady {w w' : ClientWorker σ} {xs : List UInt8} :
      Delivers (w.iterate dispatch .notReady) xs w' → Delivers w xs w'
  | block {w w' : ClientWorker σ} {b xs : List UInt8} (hne : b ≠ [])
      (hle : b.length ≤ offered w.recvLen) :
      Delivers (w.iterate dispatch (.received b hle)) xs w' → Delivers w (b ++ xs) w'
  | full {w : ClientWorker σ} {xs : List UInt8} (hspace : offered w.recvLen = 0) (hne : xs ≠ []) :
      Delivers w xs (w.iterate dispatch (.received [] (Nat.zero_le _)))

end

/-- The dispatcher that only records what was parsed. -/
def record (ms : List ProtoMessage) (msg : ProtoMessage) : List ProtoMessage := ms ++ [msg]

/-! ## The inner loop -/

/-- The window through which the receive loop sees the stream. -/
def window : ℕ := recvBufSize - 1

variable {σ : Type} (dispatch : σ → ProtoMessage → σ)

/-- With enough fuel, the inner loop scans the bytes behind `offset` and stops
    at its residue. -/
theorem parseLoop_scans (recvBuf : Buffer UInt8 recvBufSize) {recvLen : ℕ} (hle : recvLen ≤ window)
    (fuel offset : ℕ) (st : σ) (hoff : offset ≤ recvLen) (hfuel : recvLen - offset ≤ fuel) :
    ∃ ms offset', parseLoop dispatch recvBuf recvLen fuel offset st = (ms.foldl dispatch st, offset') ∧
      offset' ≤ recvLen ∧
      Scans protoParser window (recvBuf.read offset (recvLen - offset)) ms
        (recvBuf.read offset' (recvLen - offset')) := by
  induction fuel generalizing offset st with
  | zero =>
    have h0 : recvLen - offset = 0 := by omega
    exact ⟨[], offset, rfl, hoff, .more (by simp [Buffer.read, h0, protoParser.parse_nil])⟩
  | succ fuel ih =>
    by_cases hlt : offset < recvLen
    · have hlen : (recvBuf.read offset (recvLen - offset)).length = recvLen - offset :=
        recvBuf.length_read (by unfold window at hle; omega)
      have hwin : (recvBuf.read offset (recvLen - offset)).take window =
          recvBuf.read offset (recvLen - offset) := List.take_of_length_le (by omega)
      rw [parseLoop, if_pos hlt]
      cases hp : protoParseFrame (recvBuf.read offset (recvLen - offset)) with
      | frame n msg =>
        obtain ⟨hpos, hn⟩ := protoParser.frame_len hp
        rw [hlen] at hn
        obtain ⟨ms, offset', hloop, hoff', hs⟩ :=
          ih (offset + n) (dispatch st msg) (by omega) (by omega)
        refine ⟨msg :: ms, offset', hloop, hoff', .frame (n := n) (by rw [hwin]; exact hp) ?_⟩
        rwa [Buffer.drop_read, show recvLen - offset - n = recvLen - (offset + n) by omega]
      | more => exact ⟨[], offset, rfl, hoff, .more (by rw [hwin]; exact hp)⟩
      | bad =>
        obtain ⟨ms, offset', hloop, hoff', hs⟩ := ih (offset + 1) st (by omega) (by omega)
        refine ⟨ms, offset', hloop, hoff', .bad (by rw [hwin]; exact hp) ?_⟩
        rwa [Buffer.drop_read, show recvLen - offset - 1 = recvLen - (offset + 1) by omega]
    · rw [parseLoop, if_neg hlt]
      have h0 : recvLen - offset = 0 := by omega
      exact ⟨[], offset, rfl, hoff, .more (by simp [Buffer.read, h0, protoParser.parse_nil])⟩

/-! ## Refinement of the abstract receiver -/

namespace ClientWorker

theorem length_data (w : ClientWorker σ) : w.data.length = w.recvLen :=
  w.recvBuf.length_read (by have := w.recvLen_le; omega)

/-- The conditional `memmove` (lines 548–550) brings the residue to the front. -/
theorem read_memmove (buf : Buffer UInt8 recvBufSize) {len offset : ℕ} (hoff : offset ≤ len)
    (hfit : len ≤ recvBufSize) :
    Buffer.read (if h : 0 < offset ∧ offset < len then
        buf.moveDown offset (len - offset) (by omega) else buf) 0 (len - offset) =
      buf.read offset (len - offset) := by
  split_ifs with h
  · exact buf.take_elems_moveDown offset (len - offset) _
  · rcases Nat.eq_zero_or_pos offset with rfl | hpos
    · rfl
    · rw [show len - offset = 0 by omega, Buffer.read, Buffer.read, List.take_zero, List.take_zero]

/-- After a block, the worker has dispatched the messages of the scan of what
    it holds, and holds the residue. -/
theorem receive_scans (w : ClientWorker σ) (block : List UInt8)
    (h : block.length ≤ offered w.recvLen) :
    ∃ ms, (w.receive dispatch block h).state = ms.foldl dispatch w.state ∧
      Scans protoParser window (w.data ++ block) ms (w.receive dispatch block h).data := by
  have hle := w.recvLen_le
  have hfit : w.recvLen + block.length ≤ window := by unfold offered at h; unfold window; omega
  have hsize : w.recvLen + block.length ≤ recvBufSize := by unfold window at hfit; omega
  obtain ⟨ms, offset, hloop, hoff, hs⟩ :=
    parseLoop_scans dispatch (w.recvBuf.write w.recvLen block hsize) hfit
      (w.recvLen + block.length) 0 w.state (Nat.zero_le _) (Nat.sub_le _ _)
  have hdata : (w.recvBuf.write w.recvLen block hsize).read 0 (w.recvLen + block.length - 0) =
      w.data ++ block := w.recvBuf.take_elems_write _ rfl
  refine ⟨ms, ?_, ?_⟩
  · simp only [receive, hloop]
  · rw [hdata] at hs
    convert hs using 1
    simp only [data, receive, hloop]
    exact read_memmove _ hoff hsize

end ClientWorker

variable {dispatch}

/-- The loop over the receive buffer is a buffered receiver over the bytes in
    the buffer, which dispatches the messages in the order in which the
    receiver yields them. -/
theorem Delivers.refines {w w' : ClientWorker σ} {xs : List UInt8} (h : Delivers dispatch w xs w')
    (hopen : w.closed = false) :
    ∃ ms, w'.state = ms.foldl dispatch w.state ∧
      Lib.Delivers protoParser window w.data xs ms w'.data w'.closed := by
  induction h with
  | idle w => exact ⟨[], rfl, by rw [hopen]; exact .idle _⟩
  | notReady _ ih => exact ih hopen
  | @block w w' b xs hne hle _ ih =>
    have hiter : w.iterate dispatch (.received b hle) = w.receive dispatch b hle := by
      rw [ClientWorker.iterate, if_neg (by rwa [List.length_eq_zero_iff])]
    rw [hiter] at ih
    obtain ⟨ms, hst, hs⟩ := w.receive_scans dispatch b hle
    obtain ⟨ms', hst', hd⟩ := ih rfl
    refine ⟨ms ++ ms', by rw [hst', hst, List.foldl_append], .block hne ?_ hs hd⟩
    have := w.recvLen_le
    rw [w.length_data, window]
    unfold offered at hle
    omega
  | @full w xs hspace hne =>
    refine ⟨[], rfl, .full ?_ hne⟩
    have := w.recvLen_le
    rw [w.length_data, window]
    unfold offered at hspace
    omega

/-- A delivery to a fresh worker dispatches the messages of the scan of the
    stream, keeps the part of the residue that fits the buffer, and closes
    exactly when the residue does not fit. -/
theorem Delivers.scans {recvBuf : Buffer UInt8 recvBufSize} {st : σ} {w : ClientWorker σ}
    {xs : List UInt8} (h : Delivers dispatch (.start recvBuf st) xs w) :
    ∃ ms r, Scans protoParser window xs ms r ∧ w.state = ms.foldl dispatch st ∧
      w.data = r.take window ∧ (w.closed = true ↔ window < r.length) := by
  obtain ⟨ms, hst, hd⟩ := h.refines rfl
  obtain ⟨r, hs, hdata, hclosed⟩ := hd.scans (Nat.zero_le _) protoParser.parse_nil
  exact ⟨ms, r, hs, hst, hdata, hclosed⟩

/-- Every stream can be delivered, for instance byte by byte. -/
theorem Delivers.total (dispatch : σ → ProtoMessage → σ) (w : ClientWorker σ)
    (xs : List UInt8) : ∃ w', Delivers dispatch w xs w' := by
  induction xs generalizing w with
  | nil => exact ⟨w, .idle w⟩
  | cons x xs ih =>
    by_cases hspace : offered w.recvLen = 0
    · exact ⟨_, .full hspace (List.cons_ne_nil _ _)⟩
    · have hle : [x].length ≤ offered w.recvLen := Nat.pos_of_ne_zero hspace
      obtain ⟨w', h⟩ := ih (w.iterate dispatch (.received [x] hle))
      exact ⟨w', .block (b := [x]) (List.cons_ne_nil _ _) hle h⟩

theorem foldl_record (ms ms' : List ProtoMessage) : ms'.foldl record ms = ms ++ ms' := by
  induction ms' generalizing ms with
  | nil => rw [List.foldl_nil, List.append_nil]
  | cons m ms' ih => rw [List.foldl_cons, ih, record, List.append_assoc, List.singleton_append]

/-! ## Independence of the block boundaries -/

/-- Two ways of cutting a stream into blocks yield the same messages in the
    same order, leave the same bytes in the buffer, and agree on whether the
    worker closed the connection. -/
theorem chunking_independent {recvBuf₁ recvBuf₂ : Buffer UInt8 recvBufSize} {xs : List UInt8}
    {w₁ w₂ : ClientWorker (List ProtoMessage)}
    (h₁ : Delivers record (.start recvBuf₁ []) xs w₁)
    (h₂ : Delivers record (.start recvBuf₂ []) xs w₂) :
    w₁.state = w₂.state ∧ w₁.data = w₂.data ∧ w₁.closed = w₂.closed := by
  obtain ⟨ms₁, r₁, hs₁, hst₁, hdata₁, hc₁⟩ := h₁.scans
  obtain ⟨ms₂, r₂, hs₂, hst₂, hdata₂, hc₂⟩ := h₂.scans
  obtain ⟨rfl, rfl⟩ := hs₁.unique hs₂
  exact ⟨by rw [hst₁, hst₂], by rw [hdata₁, hdata₂], Bool.eq_iff_iff.mpr (hc₁.trans hc₂.symm)⟩

/-- A PING in one block, and in two. -/
theorem chunking_independent_two :
    ∃ w₁ w₂, Delivers record (.start (.filled _ 0) []) (frameImage ⟨cmdPing, flagHeartbeat, 7, [], 0⟩) w₁ ∧
      Delivers record (.start (.filled _ 0x5A) []) (frameImage ⟨cmdPing, flagHeartbeat, 7, [], 0⟩) w₂ ∧
      w₁.state = w₂.state ∧ w₁.data = w₂.data ∧ w₁.closed = w₂.closed := by
  have h₁ := Delivers.block (w := .start (.filled _ 0) [])
    (b := [0xAA, 0x55, 0x01, 0x02, 0x07, 0x00, 0x00, 0x00, 0xFB]) (by decide) (by decide)
    (.idle (ClientWorker.iterate record _ _))
  have h₂ := Delivers.block (w := .start (.filled _ 0x5A) []) (b := [0xAA, 0x55, 0x01, 0x02]) (by decide)
    (by decide) (.block (b := [0x07, 0x00, 0x00, 0x00, 0xFB]) (by decide) (by decide)
      (.idle (ClientWorker.iterate record _ _)))
  exact ⟨_, _, h₁, h₂, chunking_independent h₁ h₂⟩

end LinuxFileManager.Gateway

/-
  `SyncBlockedClinet` (Network/sync_block_client): a client that sends a
  request and blocks until the reply is there.

  The member functions are programs over the system calls they make; the
  strings are bytes, with a C string cut at its first NUL.  What they do to the
  members of the client, and what an environment keeps meanwhile, is said once
  for every environment: `wp_createConnect`, `wlp_exchange`.
-/
import CppExperiment.Lib.Memory
import CppExperiment.Lib.Program

namespace CppExperiment.SyncBlockedClient

/-- The options of `SetOptions`: timeouts in seconds, flags. -/
inductive SockOpt
  | sndTimeo (sec : ℤ)
  | rcvTimeo (sec : ℤ)
  | tcpNodelay
  | tcpQuickack

/-- The system calls. -/
inductive Sys
  | socket
  | inetPton (addr : String)
  | setsockopt (sock : ℤ) (opt : SockOpt)
  | connect (sock : ℤ) (addr : String) (port : ℕ)
  | send (sock : ℤ) (buf : List UInt8)
  | recv (sock : ℤ) (len : ℕ)
  | sleepMs (ms : ℕ)
  | close (sock : ℤ)
  | time
  | strerror (errnum : ℤ)

/-- What they return.  `send` and `recv` fail with an `errno`, or give the number
    of bytes sent and the bytes received: none if the peer has closed. -/
abbrev Ans : Sys → Type
  | .socket | .inetPton _ | .setsockopt _ _ | .connect _ _ _ | .close _ | .time => ℤ
  | .send _ _ => Except ℤ ℕ
  | .recv _ _ => Except ℤ (List UInt8)
  | .sleepMs _ => Unit
  | .strerror _ => String

/-- `EAGAIN` and `EWOULDBLOCK`, one number on Linux. -/
def EAGAIN : ℤ := 11
def EWOULDBLOCK : ℤ := 11

abbrev Prog := CppExperiment.Prog Sys Ans

/-- A system call. -/
abbrev sys (c : Sys) : Prog (Ans c) := Prog.ask c

/-- The members of the client. -/
structure Client where
  perPkgSizeLimit : ℕ
  socket : ℤ
  servAddr : String
  servPort : ℕ
  timeout : ℤ
  isConnected : Bool
  cachedBuff : List UInt8
  awakedTime : ℤ
  lastErrorMsg : String

/-- The constructor. -/
def Client.new (servAddr : String) (servPort : ℕ) (timeout : ℤ) (perPkgSizeLimit : ℕ) : Client where
  perPkgSizeLimit := perPkgSizeLimit
  socket := -1
  servAddr := servAddr
  servPort := servPort
  timeout := timeout
  isConnected := false
  cachedBuff := List.replicate perPkgSizeLimit 0
  awakedTime := 0
  lastErrorMsg := ""

/-- A `std::pair<bool, std::string>`. -/
abbrev Result := Bool × List UInt8

/-- The bytes of a text of the program. -/
def bytes (s : String) : List UInt8 := s.toUTF8.toList

namespace Client

/-- `SetOptions()`. -/
def setOptions (c : Client) : Prog (Bool × Client) := do
  let r : ℤ ← sys (.setsockopt c.socket (.sndTimeo c.timeout))
  if r = -1 then return (false, { c with lastErrorMsg := "设置发送超时失败" })
  else
    let r : ℤ ← sys (.setsockopt c.socket (.rcvTimeo c.timeout))
    if r = -1 then return (false, { c with lastErrorMsg := "设置接收超时失败" })
    else
      let r : ℤ ← sys (.setsockopt c.socket .tcpNodelay)
      if r < 0 then return (false, { c with lastErrorMsg := "禁用Negle算法失败" })
      else
        let r : ℤ ← sys (.setsockopt c.socket .tcpQuickack)
        if r < 0 then return (false, { c with lastErrorMsg := "启用快速重传失败" })
        else return (true, c)

/-- `CreateConnect()`; what `SetOptions` returns is not looked at. -/
def createConnect (c : Client) : Prog (Bool × Client) := do
  let s : ℤ ← sys .socket
  let c := { c with socket := s }
  if s = -1 then return (false, { c with lastErrorMsg := "Create socket failed" })
  else
    let r : ℤ ← sys (.inetPton c.servAddr)
    if r ≤ 0 then return (false, { c with lastErrorMsg := "Set ip address of JSD system failed" })
    else
      let (_, c) ← c.setOptions
      let r : ℤ ← sys (.connect c.socket c.servAddr c.servPort)
      if r < 0 then
        return (false, { c with lastErrorMsg :=
          "Connect address [" ++ c.servAddr ++ ":" ++ toString c.servPort ++ "] fail" })
      else
        let now : ℤ ← sys .time
        return (true, { c with isConnected := true, awakedTime := now })

/-- The text of an error: `fmt::format(what, errcode, strerror(errcode))`. -/
def errorMsg (what : String) (errcode : ℤ) (msg : String) : String :=
  what ++ " [" ++ toString errcode ++ "][" ++ msg ++ "]"

/-- What `recv` has written to `m_CachedBuff`, with the terminator behind it. -/
def cache (c : Client) (bs : List UInt8) : Prog Client :=
  if bs.length < c.cachedBuff.length then
    pure { c with cachedBuff := (bs ++ c.cachedBuff.drop bs.length).set bs.length 0 }
  else .ub

/-- The loop of `RecvData()`, with `n` of the three tries left. -/
def recvLoop : (n : ℕ) → Client → Prog (Result × Client)
  | 0, c => return ((false, bytes "接收后台应答超时!"), c)
  | n + 1, c => do
    match ← sys (.recv c.socket c.perPkgSizeLimit) with
    | .error errcode =>
      let msg : String ← sys (.strerror errcode)
      let c := { c with lastErrorMsg := errorMsg "Recv data failed." errcode msg }
      if errcode = EAGAIN ∨ errcode = EWOULDBLOCK then
        sys (.sleepMs 50)
        recvLoop n c
      else return ((false, bytes "Recv data from server happend error.."), c)
    | .ok [] =>
      let c := { c with lastErrorMsg := "Connection closed by the peer" }
      return ((false, bytes c.lastErrorMsg), c)
    | .ok bs =>
      let c ← c.cache bs
      return ((true, []), c)

/-- `RecvData()`. -/
def recvData (c : Client) : Prog (Result × Client) := recvLoop 3 c

/-- `SendAndRecv(request, reqlen)` on a client that is connected: the calls of
    `CloseConnection` are commented out in the source. -/
def exchange (c : Client) (request : List UInt8) : Prog (Result × Client) := do
  match ← sys (.send c.socket request) with
  | .error errcode =>
    let msg : String ← sys (.strerror errcode)
    return ((false, bytes "Send data to server failed.."),
      { c with lastErrorMsg := errorMsg "Send data failed." errcode msg })
  | .ok _ =>
    let (ret, c) ← c.recvData
    let now : ℤ ← sys .time
    let c := { c with awakedTime := now }
    if ret.1 then
      if 0 ∈ c.cachedBuff then return ((true, cstr c.cachedBuff), c) else .ub
    else return (ret, c)

/-- `SendAndRecv(request, reqlen)`. -/
def sendAndRecv (c : Client) (request : List UInt8) : Prog (Result × Client) := do
  if c.isConnected then c.exchange request
  else
    let (ok, c) ← c.createConnect
    if ok then c.exchange request
    else return ((false, bytes "Create connection to server failed.."), c)

/-- `CloseConnection()`. -/
def closeConnection (c : Client) : Prog Client := do
  let c := if c.isConnected then { c with isConnected := false } else c
  let _ : ℤ ← sys (.close c.socket)
  return { c with socket := -1 }

/-- `IsValid()`. -/
def isValid (c : Client) : Bool := c.isConnected

/-- The destructor, without the memory it frees. -/
def destroy (c : Client) : Prog Unit := do
  if c.socket > 0 then
    let _ : ℤ ← sys (.close c.socket)

end Client

/-! ## What the functions do in any environment -/

/-- The calls that `CreateConnect` makes after `socket`. -/
def Sys.Setup : Sys → Prop
  | .inetPton _ | .setsockopt _ _ | .connect _ _ _ | .time => True
  | _ => False

/-- The calls that neither make nor close a connection. -/
def Sys.Plain : Sys → Prop
  | .socket | .connect _ _ _ | .close _ => False
  | _ => True

/-- The answers with which `CreateConnect` succeeds. -/
def Sys.Ok : (c : Sys) → Ans c → Prop
  | .socket, r => r = (3 : ℤ)
  | .inetPton _, r => r = (1 : ℤ)
  | .setsockopt _ _, r => r = (0 : ℤ)
  | .connect _ _ _, r => r = (0 : ℤ)
  | .time, r => r = (0 : ℤ)
  | _, _ => False

section
open CppExperiment.Prog
variable {W : Type} {H : W → (c : Sys) → Ans c → W → Prop} {I : W → Prop} {c : Client} {w : W}

/-- The environment keeps `I` at the calls in `K`. -/
def Keeps (H : W → (c : Sys) → Ans c → W → Prop) (K : Sys → Prop) (I : W → Prop) : Prop :=
  ∀ ⦃w c x w'⦄, H w c x w' → I w → K c → I w'

theorem keeps_true {K : Sys → Prop} : Keeps H K fun _ => True := fun _ _ _ _ _ _ _ => trivial

theorem wp_setOptions (hI : Keeps H Sys.Setup I) (hw : I w) :
    wp H c.setOptions (fun r w' => r.2.socket = c.socket ∧ r.2.cachedBuff = c.cachedBuff ∧
      r.2.perPkgSizeLimit = c.perPkgSizeLimit ∧ I w') w := by
  apply wp_ask_bind
  intro r w₁ h₁
  have hw₁ := hI h₁ hw trivial
  split_ifs
  · exact wp_pure ⟨rfl, rfl, rfl, hw₁⟩
  apply wp_ask_bind
  intro r w₂ h₂
  have hw₂ := hI h₂ hw₁ trivial
  split_ifs
  · exact wp_pure ⟨rfl, rfl, rfl, hw₂⟩
  apply wp_ask_bind
  intro r w₃ h₃
  have hw₃ := hI h₃ hw₂ trivial
  split_ifs
  · exact wp_pure ⟨rfl, rfl, rfl, hw₃⟩
  apply wp_ask_bind
  intro r w₄ h₄
  have hw₄ := hI h₄ hw₃ trivial
  split_ifs
  · exact wp_pure ⟨rfl, rfl, rfl, hw₄⟩
  · exact wp_pure ⟨rfl, rfl, rfl, hw₄⟩

/-- **Connecting**: the new socket is in `m_Socket`, also when it fails, and what
    the environment says of this socket stays true. -/
theorem wp_createConnect {J : ℤ → W → Prop} (h0 : ∀ s w', H w .socket s w' → J s w')
    (hJ : ∀ s, Keeps H Sys.Setup (J s)) :
    wp H c.createConnect (fun r w' => J r.2.socket w' ∧ (r.1 = true → r.2.isConnected = true) ∧
      r.2.cachedBuff = c.cachedBuff ∧ r.2.perPkgSizeLimit = c.perPkgSizeLimit) w := by
  apply wp_ask_bind
  intro s w₁ h₁
  have hw₁ := h0 s w₁ h₁
  split_ifs
  · exact wp_pure ⟨hw₁, nofun, rfl, rfl⟩
  apply wp_ask_bind
  intro r w₂ h₂
  have hw₂ := hJ s h₂ hw₁ trivial
  split_ifs
  · exact wp_pure ⟨hw₂, nofun, rfl, rfl⟩
  refine wp_bind (wp_mono (wp_setOptions (hJ s) hw₂) ?_)
  rintro ⟨ok, c₃⟩ w₃ ⟨hsock, hb, hl, hw₃⟩
  have hsock : c₃.socket = s := hsock
  apply wp_ask_bind
  intro r w₄ h₄
  have hw₄ := hJ s h₄ hw₃ trivial
  rw [← hsock] at hw₄
  split_ifs
  · exact wp_pure ⟨hw₄, nofun, hb, hl⟩
  apply wp_ask_bind
  intro now w₅ h₅
  exact wp_pure ⟨hJ _ h₅ hw₄ trivial, fun _ => rfl, hb, hl⟩

/-- **A connection can be made**, if the environment lets every call succeed. -/
theorem exec_createConnect {next : W → (c : Sys) → Ans c → W}
    (hH : ∀ w c x, c.Ok x → H w c x (next w c x)) (c : Client) (w : W) :
    ∃ c' w₁, Exec H w c.createConnect (some (true, c'))
      (next (next w₁ (.connect 3 c.servAddr c.servPort) (0 : ℤ)) .time (0 : ℤ)) ∧
      c'.isConnected = true ∧ c'.cachedBuff = c.cachedBuff := by
  have hopt (opt : SockOpt) (w : W) : Exec H w (sys (.setsockopt 3 opt)) (some (0 : ℤ))
      (next w (.setsockopt 3 opt) (0 : ℤ)) := exec_ask (hH _ _ _ rfl)
  have hopts (w : W) : ∃ w₁, Exec H w { c with socket := 3 }.setOptions
      (some (true, { c with socket := 3 })) w₁ :=
    ⟨_, exec_bind (hopt _ _) (exec_bind (hopt _ _) (exec_bind (hopt _ _) (exec_bind (hopt _ _)
      exec_pure)))⟩
  obtain ⟨w₁, hset⟩ := hopts (next (next w .socket (3 : ℤ)) (.inetPton c.servAddr) (1 : ℤ))
  refine ⟨{ c with socket := 3, isConnected := true, awakedTime := 0 }, w₁, ?_, rfl, rfl⟩
  refine exec_bind (exec_ask (hH w .socket (3 : ℤ) rfl)) ?_
  dsimp only
  rw [if_neg (by decide)]
  refine exec_bind (exec_ask (hH _ (.inetPton c.servAddr) (1 : ℤ) rfl)) ?_
  rw [if_neg (by decide)]
  refine exec_bind hset (exec_bind (exec_ask (hH w₁ (.connect 3 _ _) (0 : ℤ) rfl)) ?_)
  rw [if_neg (by decide)]
  exact exec_bind (exec_ask (hH _ .time (0 : ℤ) rfl)) exec_pure

/-- What an exchange leaves of the members of the client. -/
structure Client.Kept (c c' : Client) : Prop where
  socket : c'.socket = c.socket
  isConnected : c'.isConnected = c.isConnected
  limit : c'.perPkgSizeLimit = c.perPkgSizeLimit
  size : c'.cachedBuff.length = c.cachedBuff.length

theorem wlp_cache (bs : List UInt8) (hw : I w) :
    wlp H (c.cache bs) (fun c' w' => c.Kept c' ∧ I w') w := by
  unfold Client.cache
  split_ifs with h
  · refine wlp_pure ⟨⟨rfl, rfl, rfl, ?_⟩, hw⟩
    simp only [List.length_set, List.length_append, List.length_drop]
    rw [Nat.add_sub_cancel' h.le]
  · exact wlp_ub

theorem wlp_recvLoop (hI : Keeps H Sys.Plain I) (n : ℕ) (hw : I w) :
    wlp H (c.recvLoop n) (fun r w' => c.Kept r.2 ∧ I w') w := by
  induction n generalizing c w with
  | zero => exact wlp_pure ⟨⟨rfl, rfl, rfl, rfl⟩, hw⟩
  | succ n ih =>
    apply wlp_ask_bind
    intro x w₁ h₁
    have hw₁ := hI h₁ hw trivial
    match x with
    | .error errcode =>
      apply wlp_ask_bind
      intro msg w₂ h₂
      have hw₂ := hI h₂ hw₁ trivial
      dsimp only
      split_ifs
      · -- a timeout: the next try starts with another error text only
        apply wlp_ask_bind
        intro _ w₃ h₃
        refine wlp_mono (ih (hI h₃ hw₂ trivial)) ?_
        rintro r w₄ ⟨hk, hw₄⟩
        exact ⟨⟨hk.socket, hk.isConnected, hk.limit, hk.size⟩, hw₄⟩
      · exact wlp_pure ⟨⟨rfl, rfl, rfl, rfl⟩, hw₂⟩
    | .ok [] => exact wlp_pure ⟨⟨rfl, rfl, rfl, rfl⟩, hw₁⟩
    | .ok (b :: bs) =>
      refine wlp_bind (wlp_mono (wlp_cache (b :: bs) hw₁) ?_)
      intro c' w' h
      exact wlp_pure h

/-- **The exchange** of a request keeps the socket, and the client connected,
    also when it fails. -/
theorem wlp_exchange (hI : Keeps H Sys.Plain I) (req : List UInt8) (hw : I w) :
    wlp H (c.exchange req) (fun r w' => c.Kept r.2 ∧ I w') w := by
  apply wlp_ask_bind
  intro x w₁ h₁
  have hw₁ := hI h₁ hw trivial
  match x with
  | .error errcode =>
    apply wlp_ask_bind
    intro msg w₂ h₂
    exact wlp_pure ⟨⟨rfl, rfl, rfl, rfl⟩, hI h₂ hw₁ trivial⟩
  | .ok _ =>
    refine wlp_bind (wlp_mono (wlp_recvLoop hI 3 hw₁) ?_)
    rintro ⟨ret, c'⟩ w₂ ⟨hk, hw₂⟩
    apply wlp_ask_bind
    intro now w₃ h₃
    have hw₃ := hI h₃ hw₂ trivial
    have hk₃ : c.Kept { c' with awakedTime := now } :=
      ⟨hk.socket, hk.isConnected, hk.limit, hk.size⟩
    dsimp only
    split_ifs
    · exact wlp_pure ⟨hk₃, hw₃⟩
    · exact wlp_ub
    · exact wlp_pure ⟨hk₃, hw₃⟩

end

end CppExperiment.SyncBlockedClient

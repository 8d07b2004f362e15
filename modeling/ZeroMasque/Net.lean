import Mathlib.Algebra.Group.Nat.Defs
import Mathlib.Data.List.Basic

/-! Bytes, text and socket addresses as the standard library presents them. -/
namespace ZeroMasque

abbrev Bytes := List UInt8

/-- The bytes of a string. -/
def utf8 (s : String) : Bytes := s.toUTF8.data.toList

/-- `String::from_utf8`. -/
def fromUtf8 (b : Bytes) : Option String := String.fromUTF8? ⟨b.toArray⟩

theorem fromUtf8_utf8 (s : String) : fromUtf8 (utf8 s) = some s := by
  have hbytes : (⟨(utf8 s).toArray⟩ : ByteArray) = s.toUTF8 := by rw [utf8, Array.toArray_toList]
  rw [fromUtf8, hbytes, String.fromUTF8?]
  exact dif_pos s.isValidUTF8

theorem utf8_of_fromUtf8 {b : Bytes} {s : String} (h : fromUtf8 b = some s) : utf8 s = b := by
  rw [fromUtf8, String.fromUTF8?] at h
  split at h
  · cases h
    rfl
  · cases h

private theorem utf8_ofList {cs : List Char} (h : ∀ c ∈ cs, c.toNat < 128) :
    utf8 (String.ofList cs) = cs.map fun c => UInt8.ofNat c.toNat := by
  have hbytes : utf8 (String.ofList cs) = cs.flatMap String.utf8EncodeChar := by
    simp [utf8, String.toUTF8, String.ofList, List.utf8Encode]
  rw [hbytes]
  clear hbytes
  induction cs with
  | nil => rfl
  | cons c cs ih =>
    have hle : c.val.toNat ≤ 127 := Nat.le_of_lt_succ (h c List.mem_cons_self)
    have hc : String.utf8EncodeChar c = [UInt8.ofNat c.toNat] := if_pos hle
    rw [List.flatMap_cons, hc, ih fun x hx => h x (List.mem_cons_of_mem c hx)]
    rfl

/-- A text of ASCII characters is cut between characters only. -/
theorem utf8_take {cs : List Char} (h : ∀ c ∈ cs, c.toNat < 128) (n : Nat) :
    (utf8 (String.ofList cs)).take n = utf8 (String.ofList (cs.take n)) := by
  rw [utf8_ofList h, utf8_ofList fun c hc => h c (List.mem_of_mem_take hc), List.map_take]

/-- An HTTP header field. -/
structure Header where
  name : Bytes
  value : Bytes
  deriving DecidableEq

/-- A socket address; the flow label and the scope take part in equality. -/
inductive SocketAddr where
  | v4 (ip : BitVec 32) (port : UInt16)
  | v6 (ip : BitVec 128) (port : UInt16) (flowinfo scope : UInt32)
  deriving DecidableEq

namespace SocketAddr

def isIpv4 : SocketAddr → Bool
  | .v4 .. => true
  | .v6 .. => false

def port : SocketAddr → UInt16
  | .v4 _ port => port
  | .v6 _ port .. => port

/-- `SocketAddr::new` on the canonical address: an IPv4-mapped IPv6 address
becomes IPv4, and no flow label or scope is kept. -/
def canonicalWithPort (addr : SocketAddr) (port : UInt16) : SocketAddr :=
  match addr with
  | .v4 ip _ => .v4 ip port
  | .v6 ip .. =>
    if ip.extractLsb' 32 96 = 0xffff#96 then .v4 (ip.extractLsb' 0 32) port
    else .v6 ip port 0 0

/-- `0.0.0.0:0` or `[::]:0`, in the family of the peer. -/
def unspecifiedFor (peer : SocketAddr) : SocketAddr :=
  if peer.isIpv4 then .v4 0 0 else .v6 0 0 0 0

end SocketAddr

/-- Outer QUIC packet ceiling and the size of every `conn.send` buffer. -/
def maxDatagramSize : Nat := 1400

/-- Scratch buffer of a single UDP read. -/
def recvBuf : Nat := 65535

/-- Reads and writes a wakeup of a socket task performs at most. -/
def recvBatchLen : Nat := 32

def sendBatchLen : Nat := 32

end ZeroMasque

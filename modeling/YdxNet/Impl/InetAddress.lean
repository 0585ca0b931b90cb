import YdxNet.Framework.Bytes

/-!
# `inet_address.h`, and `toIpPort` and `fromIpPort` of `socket_ops.cpp`

An address as the kernel knows it, and as text. The four bytes of the address
are in the order in which they are sent; the port is a number. A C string is the
text before its NUL.
-/

namespace Ydx

/-- `struct in_addr`. -/
structure InAddr where
  b₀ : UInt8
  b₁ : UInt8
  b₂ : UInt8
  b₃ : UInt8
  deriving DecidableEq, Repr

/-- `class InetAddress`, `struct sockaddr_in`. -/
structure InetAddress where
  sin_addr : InAddr
  sin_port : UInt16
  deriving DecidableEq, Repr

/-- `inet_ntop(AF_INET, ...)`: decimal numbers with dots. -/
def inetNtop (a : InAddr) : String :=
  toString a.b₀.toNat ++ "." ++ toString a.b₁.toNat ++ "." ++ toString a.b₂.toNat ++ "." ++ toString a.b₃.toNat

/-- `inet_pton(AF_INET, ...)` while it reads: the numbers before, the one it is at, and whether that has a
digit yet. -/
structure InetPton where
  before : List Nat
  tp : Nat
  sawDigit : Bool
  deriving DecidableEq, Repr

namespace InetPton

/-- How many numbers it has seen. -/
def octets (s : InetPton) : Nat := s.before.length + if s.sawDigit then 1 else 0

/-- The next character. A number with a leading zero is not accepted. -/
def next (s : InetPton) (ch : Char) : Option InetPton :=
  if ch.isDigit then
    let new := s.tp * 10 + (ch.toNat - '0'.toNat)
    if s.sawDigit && s.tp == 0 then none
    else if new > 255 then none
    else if !s.sawDigit && s.octets + 1 > 4 then none
    else some { s with tp := new, sawDigit := true }
  else if ch == '.' && s.sawDigit then
    if s.octets = 4 then none else some ⟨s.before ++ [s.tp], 0, false⟩
  else none

end InetPton

/-- `inet_pton(AF_INET, src, dst)`: the address, if the text is one. -/
def inetPton (src : String) : Option InAddr :=
  match src.toList.foldlM InetPton.next ⟨[], 0, false⟩ with
  | some ⟨[b₀, b₁, b₂], b₃, true⟩ => some ⟨.ofNat b₀, .ofNat b₁, .ofNat b₂, .ofNat b₃⟩
  | _ => none

namespace InetAddress

/-- `sockets::fromIpPort(ip, port, &addr)` for an address of zeros, which stays if the text is none. -/
def fromIpPort (ip : String) (port : UInt16) : InetAddress := ⟨(inetPton ip).getD ⟨0, 0, 0, 0⟩, port⟩

/-- `sockets::toIpPort(buf, size, addr)`: the port goes behind the address. -/
def toIpPortIn (size : Nat) (addr : InetAddress) : String :=
  let buf := inetNtop addr.sin_addr
  buf ++ snprintf (size - buf.length) (":" ++ toString addr.sin_port.toNat)

/-- `toIpPort()`, in `char buf[32]`. -/
def toIpPort (addr : InetAddress) : String := addr.toIpPortIn 32

/-- `toIp()`: the text is shorter than `char buf[32]`. -/
def toIp (addr : InetAddress) : String := inetNtop addr.sin_addr

/-- `toPort()`. -/
def toPort (addr : InetAddress) : UInt16 := addr.sin_port

end InetAddress

end Ydx

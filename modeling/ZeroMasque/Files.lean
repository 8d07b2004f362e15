import ZeroMasque.Net

/-! Files and name resolution at one moment, as the standard library presents them. -/
namespace ZeroMasque

/-- A path as it is displayed, and its last component where that is text. -/
structure Path where
  display : String
  fileName : Option String
  deriving DecidableEq

/-- What the calls into the operating system return at one moment. -/
structure World where
  /-- `fs::metadata`, of which only the kind is read. -/
  isDir : Path → Except String Bool
  /-- `fs::read_dir`, with the entries that cannot be read. -/
  readDir : Path → Except String (List (Except String Path))
  isFile : Path → Bool
  read : Path → Except String Bytes
  /-- `to_socket_addrs`. -/
  toSocketAddrs : String → Except String (List SocketAddr)

/-- `fs::read_to_string`. -/
def World.readToString (w : World) (path : Path) : Except String String :=
  (w.read path).bind fun bytes =>
    match fromUtf8 bytes with
    | some text => .ok text
    | none => .error "stream did not contain valid UTF-8"

end ZeroMasque

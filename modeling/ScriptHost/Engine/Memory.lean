import ScriptHost.Error
import ScriptHost.Text.Utf8

set_option autoImplicit false

/-!
The engine's byte memory: disjoint blocks at addresses that are never handed out twice.

`Block.byte` says what a block holds at every place; reading and writing are stated through it.
-/

namespace ScriptHost

/-- An address in the engine's memory. Zero is the address of nothing. -/
abbrev Addr := UInt32

def blockAlignment : Nat := 8

structure Block where
  base : Nat
  size : Nat
  -- The bytes from the start up to the last place that was written; all others are zero.
  written : ByteArray

namespace Block

def byte (b : Block) (i : Nat) : UInt8 :=
  (b.written.data[i]?).getD 0

def zeros (n : Nat) : ByteArray :=
  ⟨Array.replicate n 0⟩

def pad (bytes : ByteArray) (n : Nat) : ByteArray :=
  if bytes.size < n then bytes ++ zeros (n - bytes.size) else bytes

def read (b : Block) (offset count : Nat) : Option ByteArray :=
  if offset + count ≤ b.size then some (pad (b.written.extract offset (offset + count)) count) else none

def write (b : Block) (offset : Nat) (bytes : ByteArray) : Option Block :=
  if offset + bytes.size ≤ b.size then
    some { b with
      written := pad (b.written.extract 0 offset) offset ++ bytes ++
        b.written.extract (offset + bytes.size) b.written.size }
  else none

def zeroFrom (b : Block) (offset : Nat) : Option Nat :=
  match b.written.findIdx? (fun x => x == 0) offset with
  | some i => some i
  | none =>
      let behind := max offset b.written.size
      if behind < b.size then some behind else none

end Block

structure Memory where
  -- Newest first, so the bases descend.
  blocks : List Block
  -- Where the next block starts.
  next : Nat
  -- Bytes in use, kept along with the blocks.
  used : Nat
  -- Bytes that may be in use at once.
  limit : Option Nat

namespace Memory

def firstAddress : Nat := 16

def lastAddress : Nat := 4294967295

def empty : Memory :=
  ⟨[], firstAddress, 0, none⟩

instance : Inhabited Memory :=
  ⟨empty⟩

/-- What a block of `size` bytes takes of the address space; an empty one takes as much as one byte. -/
def span (size : Nat) : Nat :=
  (max size 1 + (blockAlignment - 1)) / blockAlignment * blockAlignment

def withinLimit (m : Memory) (size : Nat) : Bool :=
  match m.limit with
  | none => true
  | some limit => decide (m.used + size ≤ limit)

def allocate (m : Memory) (size : Nat) : Addr × Memory :=
  if m.withinLimit size && decide (m.next + span size ≤ lastAddress) then
    (UInt32.ofNat m.next,
      { m with
        blocks := ⟨m.next, size, ByteArray.empty⟩ :: m.blocks, next := m.next + span size, used := m.used + size })
  else (0, m)

/-- The length of the block that starts at an address, and nothing if there is none. -/
def lengthAt (m : Memory) (a : Addr) : Nat :=
  (m.blocks.find? fun b => decide (b.base = a.toNat)).elim 0 Block.size

def free (m : Memory) (a : Addr) : Memory :=
  { m with blocks := m.blocks.filter fun b => !decide (b.base = a.toNat), used := m.used - m.lengthAt a }

/-- The last block that starts at or before an address, if the address lies inside it or at its end. -/
def locate (m : Memory) (a : Addr) : Option Block :=
  match m.blocks.find? fun b => decide (b.base ≤ a.toNat) with
  | none => none
  | some b => if a.toNat - b.base ≤ b.size then some b else none

def hexText (a : Addr) : String :=
  "0x" ++ String.ofList (Nat.toDigits 16 a.toNat)

def outOfBounds (operation : String) (count : Nat) (a : Addr) : Error :=
  .foreign operation (Nat.repr count ++ " bytes at " ++ hexText a ++ " out of bounds")

def read (m : Memory) (a : Addr) (count : Nat) : Except Error ByteArray :=
  match (m.locate a).bind fun b => b.read (a.toNat - b.base) count with
  | some bytes => .ok bytes
  | none => .error (outOfBounds "read_bytes" count a)

def write (m : Memory) (a : Addr) (bytes : ByteArray) : Except Error Memory :=
  match (m.locate a).bind fun b => b.write (a.toNat - b.base) bytes with
  | some next =>
      .ok { m with blocks := m.blocks.map fun b => if b.base = next.base then next else b }
  | none => .error (outOfBounds "write_bytes" bytes.size a)

def readCString (m : Memory) (a : Addr) : Except Error String :=
  match m.locate a with
  | none => .error (.foreign "read_cstring" (hexText a ++ " out of bounds"))
  | some b =>
      let start := a.toNat - b.base
      match b.zeroFrom start with
      | none => .error (.foreign "read_cstring" "missing NUL terminator")
      | some stop =>
          match Text.Utf8.decode (Block.pad (b.written.extract start stop) (stop - start)) with
          | .ok s => .ok s
          | .error fault => .error (.foreign "read_cstring" fault.message)

def wordBytes (w : UInt32) : List UInt8 :=
  [w.toUInt8, (w >>> 8).toUInt8, (w >>> 16).toUInt8, (w >>> 24).toUInt8]

def wordOfBytes (a b c d : UInt8) : UInt32 :=
  a.toUInt32 ||| (b.toUInt32 <<< 8) ||| (c.toUInt32 <<< 16) ||| (d.toUInt32 <<< 24)

def encodeWords (words : List UInt32) : ByteArray :=
  ⟨(words.flatMap wordBytes).toArray⟩

def decodeWords : List UInt8 -> List UInt32
  | a :: b :: c :: d :: rest => wordOfBytes a b c d :: decodeWords rest
  | _ => []

def writeWord (m : Memory) (a : Addr) (w : UInt32) : Except Error Memory :=
  m.write a (encodeWords [w])

def readWords (m : Memory) (a : Addr) (count : Nat) : Except Error (List UInt32) :=
  if count = 0 then .ok []
  else (m.read a (count * 4)).map fun bytes => decodeWords bytes.data.toList

def writeTable (m : Memory) (words : List UInt32) : Except Error (Addr × Memory) :=
  let (a, m) := m.allocate (max (words.length * 4) 4)
  if a = 0 then .ok (0, m) else (m.write a (encodeWords words)).map fun m => (a, m)

def terminated (s : String) : ByteArray :=
  s.toUTF8.push 0

def writeCString (m : Memory) (s : String) : Except Error (Addr × Memory) :=
  let bytes := terminated s
  let (a, m) := m.allocate bytes.size
  if a = 0 then .ok (0, m) else (m.write a bytes).map fun m => (a, m)

def clear (m : Memory) : Memory :=
  { m with blocks := [], used := 0 }

def setLimit (m : Memory) (limit : Option Nat) : Memory :=
  { m with limit }

end Memory

end ScriptHost

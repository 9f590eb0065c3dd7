import Z80.Statement.Basic

namespace Z80

structure Emission where
  location : Location
  address : UInt16
  offset : Nat
  length : Nat
deriving DecidableEq

structure Image where
  bytes : List UInt8
  records : List Emission
deriving DecidableEq

namespace Image

def empty : Image :=
  ⟨[], []⟩

def size (image : Image) : Nat :=
  image.bytes.length

def isEmpty (image : Image) : Bool :=
  image.bytes.isEmpty

def emit (image : Image) (loc : Location) (address : UInt16) (data : List UInt8) : Image :=
  if data.isEmpty then image
  else
    ⟨image.bytes ++ data, image.records ++ [⟨loc, address, image.bytes.length, data.length⟩]⟩

end Image

def Emission.offsetOf? (r : Emission) (address : UInt16) : Option Nat :=
  let distance := (address - r.address).toNat
  if distance < r.length then some (r.offset + distance) else none

namespace Image

def offsetOf? (image : Image) (address : UInt16) : Option Nat :=
  image.records.reverse.findSome? fun r => r.offsetOf? address

def lineBytes? (image : Image) (loc : Location) : Option (List UInt8) :=
  match image.records.find? fun r => r.location == loc with
  | some r => some ((image.bytes.drop r.offset).take r.length)
  | none => none

end Image

end Z80

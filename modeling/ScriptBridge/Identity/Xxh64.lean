/-!
The 64-bit xxHash of a list of bytes with seed zero. Stripes of 32 bytes go through four lanes,
the rest is folded in by words of eight, of four and of one byte, and a last mix spreads the bits.
-/
namespace ScriptBridge.Xxh64

def prime1 : UInt64 := 0x9e3779b185ebca87
def prime2 : UInt64 := 0xc2b2ae3d27d4eb4f
def prime3 : UInt64 := 0x165667b19e3779f9
def prime4 : UInt64 := 0x85ebca77c2b2ae63
def prime5 : UInt64 := 0x27d4eb2f165667c5

def rotateLeft (x : UInt64) (n : UInt64) : UInt64 := (x <<< n) ||| (x >>> (64 - n))

def word (bytes : List UInt8) : UInt64 :=
  bytes.foldr (fun b w => (w <<< 8) ||| b.toUInt64) 0

def round (acc input : UInt64) : UInt64 := rotateLeft (acc + input * prime2) 31 * prime1

structure Lanes where
  a : UInt64
  b : UInt64
  c : UInt64
  d : UInt64

def Lanes.start : Lanes := ⟨prime1 + prime2, prime2, 0, 0 - prime1⟩

def Lanes.step (l : Lanes) (stripe : List UInt8) : Lanes :=
  ⟨round l.a (word (stripe.take 8)),
   round l.b (word ((stripe.drop 8).take 8)),
   round l.c (word ((stripe.drop 16).take 8)),
   round l.d (word ((stripe.drop 24).take 8))⟩

def Lanes.run (l : Lanes) : Nat → List UInt8 → Lanes
  | 0, _ => l
  | n + 1, bytes => (l.step (bytes.take 32)).run n (bytes.drop 32)

def merge (h lane : UInt64) : UInt64 := (h ^^^ round 0 lane) * prime1 + prime4

def Lanes.join (l : Lanes) : UInt64 :=
  let h := rotateLeft l.a 1 + rotateLeft l.b 7 + rotateLeft l.c 12 + rotateLeft l.d 18
  merge (merge (merge (merge h l.a) l.b) l.c) l.d

def foldEight (h : UInt64) : Nat → List UInt8 → UInt64
  | 0, _ => h
  | n + 1, bytes =>
    foldEight (rotateLeft (h ^^^ round 0 (word (bytes.take 8))) 27 * prime1 + prime4) n
      (bytes.drop 8)

def foldFour (h : UInt64) (bytes : List UInt8) : UInt64 :=
  rotateLeft (h ^^^ (word bytes * prime1)) 23 * prime2 + prime3

def foldOne (h : UInt64) (byte : UInt8) : UInt64 :=
  rotateLeft (h ^^^ (byte.toUInt64 * prime5)) 11 * prime1

def spread (h : UInt64) : UInt64 :=
  let h := (h ^^^ (h >>> 33)) * prime2
  let h := (h ^^^ (h >>> 29)) * prime3
  h ^^^ (h >>> 32)

def foldRest (h : UInt64) (bytes : List UInt8) : UInt64 :=
  let h := foldEight h (bytes.length / 8) bytes
  let bytes := bytes.drop (bytes.length / 8 * 8)
  if 4 ≤ bytes.length then (bytes.drop 4).foldl foldOne (foldFour h (bytes.take 4))
  else bytes.foldl foldOne h

def hash (bytes : List UInt8) : UInt64 :=
  let stripes := bytes.length / 32
  let h := if stripes = 0 then prime5 else (Lanes.start.run stripes bytes).join
  spread (foldRest (h + UInt64.ofNat bytes.length) (bytes.drop (stripes * 32)))

def ofText (s : String) : UInt64 := hash s.toUTF8.toList

end ScriptBridge.Xxh64

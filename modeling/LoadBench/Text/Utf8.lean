/-
  LoadBench.Text.Utf8

  UTF-8.  `Utf8.front` reads one character from the front of a byte sequence or
  says how many bytes of it belong together although they are no character;
  from it come the strict reader `decode`, which stops at the first byte that
  starts no character and says where, and the lenient reader `decodeLossy`,
  which puts U+FFFD in place of each such stretch.
-/

namespace LoadBench.Utf8

/-! ## Writing -/

/-- The bytes of one character. -/
def encodeChar (c : Char) : List UInt8 :=
  let n := c.toNat
  let tail (k : Nat) : UInt8 := UInt8.ofNat (0x80 + k % 64)
  if n < 0x80 then [UInt8.ofNat n]
  else if n < 0x800 then [UInt8.ofNat (0xC0 + n / 64), tail n]
  else if n < 0x10000 then [UInt8.ofNat (0xE0 + n / 4096), tail (n / 64), tail n]
  else [UInt8.ofNat (0xF0 + n / 262144), tail (n / 4096), tail (n / 64), tail n]

/-- The bytes of a text. -/
def encode (text : List Char) : List UInt8 := text.flatMap encodeChar

/-- The bytes of a string. -/
def ofString (text : String) : List UInt8 := encode text.toList

/-- How many bytes a string takes. -/
def size (text : String) : Nat := (ofString text).length

@[simp] theorem encode_nil : encode [] = [] := rfl

@[simp] theorem encode_cons (c : Char) (text : List Char) :
    encode (c :: text) = encodeChar c ++ encode text := rfl

@[simp] theorem encode_append (first second : List Char) :
    encode (first ++ second) = encode first ++ encode second := by
  simp [encode]

/-! ## Reading one character -/

/-- What stands at the front of a byte sequence. -/
inductive Front where
  /-- A character, and how many bytes follow its first one. -/
  | char (c : Char) (more : Nat)
  /-- No character: the first byte and `more` others are the start of one that is cut short. -/
  | broken (more : Nat)
  deriving Repr

/-- What a first byte announces: how many bytes follow, the bounds of the first of them, and the
bits it contributes itself. -/
def announce (first : Nat) : Option (Nat × Nat × Nat × Nat) :=
  if first < 0x80 then some (0, 0x80, 0xBF, first)
  else if first < 0xC2 then none
  else if first < 0xE0 then some (1, 0x80, 0xBF, first - 0xC0)
  else if first = 0xE0 then some (2, 0xA0, 0xBF, 0)
  else if first = 0xED then some (2, 0x80, 0x9F, 13)
  else if first < 0xF0 then some (2, 0x80, 0xBF, first - 0xE0)
  else if first = 0xF0 then some (3, 0x90, 0xBF, 0)
  else if first < 0xF4 then some (3, 0x80, 0xBF, first - 0xF0)
  else if first = 0xF4 then some (3, 0x80, 0x8F, 4)
  else none

/-- Reads the bytes that a first byte announced; `taken` have been read already. -/
def continueWith : Nat → Nat → Nat → Nat → Nat → List UInt8 → Front
  | 0, _, _, value, taken, _ => .char (Char.ofNat value) taken
  | _ + 1, _, _, _, taken, [] => .broken taken
  | n + 1, low, high, value, taken, byte :: rest =>
    if low ≤ byte.toNat ∧ byte.toNat ≤ high then
      continueWith n 0x80 0xBF (value * 64 + (byte.toNat - 0x80)) (taken + 1) rest
    else .broken taken

/-- What stands at the front of a byte and those behind it. -/
def front (byte : UInt8) (rest : List UInt8) : Front :=
  match announce byte.toNat with
  | none => .broken 0
  | some (count, low, high, bits) => continueWith count low high bits 0 rest

/-! ## Reading a whole sequence -/

/-- The text before the first byte that starts no character, and how many bytes that text takes;
`clean` says whether the sequence ended there. -/
structure Reading where
  text : List Char
  bytes : Nat
  clean : Bool
  deriving Repr

/-- Reads characters up to the first byte that starts none. -/
def read : List UInt8 → Reading
  | [] => ⟨[], 0, true⟩
  | byte :: rest =>
    match front byte rest with
    | .broken _ => ⟨[], 0, false⟩
    | .char c more =>
      let others := read (rest.drop more)
      ⟨c :: others.text, 1 + more + others.bytes, others.clean⟩
  termination_by bytes => bytes.length
  decreasing_by rw [List.length_drop, List.length_cons]; omega

/-- The text of a byte sequence, or the length of its longest well-formed front. -/
def decode (bytes : List UInt8) : Except Nat (List Char) :=
  let reading := read bytes
  if reading.clean then .ok reading.text else .error reading.bytes

/-- The text of a byte sequence, with U+FFFD for each stretch that is no character. -/
def decodeLossy : List UInt8 → List Char
  | [] => []
  | byte :: rest =>
    match front byte rest with
    | .char c more => c :: decodeLossy (rest.drop more)
    | .broken more => Char.ofNat 0xFFFD :: decodeLossy (rest.drop more)
  termination_by bytes => bytes.length
  decreasing_by all_goals rw [List.length_drop, List.length_cons]; omega

end LoadBench.Utf8

/-!
# Well-formed UTF-8

`Utf8.valid` decides whether a list of bytes is the UTF-8 encoding of a text: every character is in
its shortest form, is no surrogate and lies below `0x110000`.
-/

namespace WasmJit.Utf8

/-- Whether `b` lies between `lo` and `hi`, both included. -/
def within (lo hi b : UInt8) : Bool :=
  lo ≤ b && b ≤ hi

/-- Whether `b` continues a character. -/
def continues (b : UInt8) : Bool :=
  within 0x80 0xbf b

/-- Whether `a b` starts a character of three bytes: `e0` must not be overlong and `ed` must not
start a surrogate. -/
def startsThree (a b : UInt8) : Bool :=
  if a = 0xe0 then within 0xa0 0xbf b
  else if a = 0xed then within 0x80 0x9f b
  else within 0xe1 0xef a && continues b

/-- Whether `a b` starts a character of four bytes: `f0` must not be overlong and `f4` must stay
below `0x110000`. -/
def startsFour (a b : UInt8) : Bool :=
  if a = 0xf0 then within 0x90 0xbf b
  else if a = 0xf4 then within 0x80 0x8f b
  else within 0xf1 0xf3 a && continues b

/-- **Whether the bytes are well-formed UTF-8.** The first byte of a character says how many
continue it. -/
def valid : List UInt8 → Bool
  | [] => true
  | a :: rest =>
    if a < 0x80 then valid rest
    else
      match rest with
      | [] => false
      | b :: rest =>
        if within 0xc2 0xdf a then continues b && valid rest
        else
          match rest with
          | [] => false
          | c :: rest =>
            if within 0xe0 0xef a then startsThree a b && continues c && valid rest
            else
              match rest with
              | [] => false
              | d :: rest => startsFour a b && continues c && continues d && valid rest

end WasmJit.Utf8

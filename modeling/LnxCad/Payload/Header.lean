import LnxCad.Text

/-!
# The header of the payload

`bin_packer` writes a C header with the packed program: two sizes as macros, and the bytes as the
initializers of an array.  A compiler that splits the text into lines, looks for the macros, and
reads the hexadecimal numbers between the braces gets back what was packed.
-/

namespace LnxCad.Payload

/-! ### Writing -/

/-- A digit of `%02x`. -/
def hexDigit (d : ℕ) : UInt8 := UInt8.ofNat (if d < 10 then 48 + d else 87 + d)

/-- `0x%02x`. -/
def hexByte (b : UInt8) : Bytes := [48, 120, hexDigit (b.toNat / 16), hexDigit (b.toNat % 16)]

/-- The loop of `main` that writes the array, from index `i` on. -/
def initializers : ℕ → Bytes → Bytes
  | _, [] => []
  | i, b :: bs =>
      hexByte b ++ (if bs ≠ [] then [44, 32] else []) ++ (if (i + 1) % 12 = 0 then [10] else [])
        ++ initializers (i + 1) bs

/-- The line of a macro, without its end. -/
def macroLine (name : List Char) (value : ℕ) : Bytes :=
  chars "#define ".toList ++ chars name ++ 32 :: natDigits value

/-- The header that `main` of `bin_packer` writes. -/
def header (decompressed_sz : ℕ) (out_buf : Bytes) : Bytes :=
  chars "/* Generated automatically by bin_packer. Do not modify. */".toList ++ 10 ::
    (chars "#ifndef GUI_PAYLOAD_H".toList ++ 10 ::
      (chars "#define GUI_PAYLOAD_H".toList ++ 10 :: 10 ::
        (macroLine "GUI_DECOMPRESSED_SIZE".toList decompressed_sz ++ 10 ::
          (macroLine "GUI_COMPRESSED_SIZE".toList out_buf.length ++ 10 :: 10 ::
            (chars "const unsigned char gui_compressed_data[GUI_COMPRESSED_SIZE] = \x7b".toList
              ++ 10 :: (initializers 0 out_buf
                ++ chars "\n\x7d;\n\n#endif /* GUI_PAYLOAD_H */\n".toList))))))

/-! ### Reading -/

end LnxCad.Payload

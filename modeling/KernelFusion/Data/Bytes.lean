/-!
# Bytes

Files are lists of bytes. Texts are stored in them in UTF-8.
-/

namespace KernelFusion

/-- The content of a file. -/
abbrev Bytes := List UInt8

/-- The UTF-8 bytes of a text. -/
def Bytes.ofString (s : String) : Bytes := s.toByteArray.data.toList

/-- The text with these UTF-8 bytes, if they are valid. -/
def Bytes.toString? (bytes : Bytes) : Option String := String.fromUTF8? ⟨bytes.toArray⟩

/-- The bytes of ASCII characters. -/
def Bytes.ofAscii (cs : List Char) : Bytes := cs.map (fun c => c.toNat.toUInt8)

/-- A text is read back from its bytes. -/
@[simp] theorem Bytes.toString?_ofString (s : String) :
    Bytes.toString? (Bytes.ofString s) = some s := by
  have h : (⟨(Bytes.ofString s).toArray⟩ : ByteArray) = s.toByteArray := by
    simp [Bytes.ofString]
  rw [Bytes.toString?, h, String.fromUTF8?, dif_pos s.isValidUTF8]
  rfl

end KernelFusion

import KernelFusion.IR.Link

/-!
# Bundles

A bundle is a list of compiled modules, the material of a fusion. Bundles are stored as JSON or as a
binary image; this module has what both forms share.
-/

namespace KernelFusion

/-- An ordered collection of modules. -/
structure Bundle where
  /-- The modules. -/
  modules : List Module
deriving DecidableEq

/-- The forms in which a bundle is stored. -/
inductive BundleFormat where
  /-- Text, for inspection and editing by hand. -/
  | json
  /-- A compact image. -/
  | image
deriving DecidableEq

/-- What can be wrong with the bytes of an image. -/
inductive ImageFault where
  /-- The bytes end within a value. -/
  | unexpectedEnd
  /-- A number does not end in time or is too large. -/
  | badVarint
  /-- The byte of a truth value is neither zero nor one. -/
  | badBool
  /-- The byte before a value that may be missing is neither zero nor one. -/
  | badOption
  /-- A text is not valid UTF-8. -/
  | badText
  /-- A choice has no variant at a position. -/
  | badVariant
deriving DecidableEq

/-- Why bytes are no bundle. -/
inductive BundleError where
  /-- The text is no JSON bundle. -/
  | json
  /-- The image is damaged. -/
  | image (fault : ImageFault)
  /-- The image does not start with the magic bytes. -/
  | invalidMagic
  /-- The image has a version that is not known. -/
  | unsupportedVersion (version : UInt32)
deriving DecidableEq

/-- The message of an image fault. -/
def ImageFault.message : ImageFault → String
  | unexpectedEnd => "Hit the end of buffer, expected more data"
  | badVarint =>
    "Found a varint that didn't terminate. Is the usize too big for this platform?"
  | badBool => "Found a bool that wasn't 0 or 1"
  | badOption => "Found an Option discriminant that wasn't 0 or 1"
  | badText => "Tried to parse invalid utf-8"
  | badVariant => "Serde Deserialization Error"

/-- The message of a bundle error. What is wrong with a JSON text is not told. -/
def BundleError.message : BundleError → String
  | json => "JSON error"
  | image fault => "serialization error: " ++ fault.message
  | invalidMagic => "invalid bundle magic number"
  | unsupportedVersion version => "unsupported bundle version: " ++ version.toNat.repr

namespace Bundle

/-- The first module with a name. -/
def module? (b : Bundle) (name : String) : Option Module :=
  b.modules.find? (fun m => m.name == name)

/-- Link all modules into a new one. -/
def link (b : Bundle) (name : String) : Except LinkError Module := Module.linkAll name b.modules

/-- Whether two bundles are equal, constants compared by value. -/
def alike (a b : Bundle) : Bool :=
  a.modules.length == b.modules.length && (a.modules.zip b.modules).all (fun p => p.1.alike p.2)

end Bundle

end KernelFusion

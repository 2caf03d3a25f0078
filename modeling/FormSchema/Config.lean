import FormSchema.Text.Lines
import FormSchema.Text.LowerCase

/-!
# Which documents are schema documents

The settings that decide which documents are validated: language identifiers, file name suffixes,
and the size above which a file is passed over.
-/

namespace FormSchema

/-- The settings of a validation. -/
structure Config where
  languageIds : List Text
  fileSuffixes : List Text
  maxDocumentBytes : Int

namespace Config

/-- Two million bytes. -/
def defaultMaxDocumentBytes : Int := 2000000

/-- JSON documents of up to two million bytes. -/
def default : Config := ⟨["json"], [".json"], defaultMaxDocumentBytes⟩

/-- Whether a file name, in lower case, ends with one of the suffixes. -/
def matchesSuffix (config : Config) (name : Text) : Bool :=
  let lowered := name.lower
  config.fileSuffixes.any fun suffix => lowered.endsWith suffix

end Config

end FormSchema

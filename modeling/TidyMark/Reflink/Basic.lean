import TidyMark.Options
import TidyMark.Reflink.Expansion
import TidyMark.Reflink.Separate

/-!
# The expansion of a document

`expand` resolves the references of a document against its own definitions and, for labels that it
does not define, against the targets that the options give.
-/

namespace TidyMark.Reflink

/-- The targets of a document and, behind them, those of the options. -/
def Table.forSource (options : Options) (source : Text) : Table :=
  (Table.ofDocument source).withContext options.reflinks

/-- Expands the references of a document and separates its collapsed references. -/
def expand (options : Options) (source : Text) : Except Failure Text :=
  ((Table.forSource options source).expand options.strict source).map separate

end TidyMark.Reflink

import CSharpTidy.Fault
import CSharpTidy.SortedMap

namespace CSharpTidy

/-- New texts for documents, by the numbers of the documents. -/
abbrev Changes := SortedMap DocumentId Text

end CSharpTidy

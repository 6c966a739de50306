import CSharpTidy.Text.Basic

namespace CSharpTidy

namespace Text

def ofUtf8? (bytes : List UInt8) : Option Text :=
  (String.fromUTF8? ⟨bytes.toArray⟩).map String.toList

def toUtf8 (text : Text) : List UInt8 := (String.ofList text).toUTF8.toList

end Text

end CSharpTidy

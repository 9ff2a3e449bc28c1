namespace Sfz.Text

def isWordChar (c : Char) : Bool :=
  c.isAlphanum || c == '_'

def isNameChar (c : Char) : Bool :=
  isWordChar c || c == '$'

end Sfz.Text

import SvgForm.Text.Quoted
/-! # Kinds of fields -/

namespace SvgForm

/-- What a field takes as input. -/
inductive Kind
  | text | textarea | checkbox | date | upload | number | email | tel | url | password | range | color
  | file | select | static
  deriving DecidableEq

namespace Kind

def all : List Kind :=
  [text, textarea, checkbox, date, upload, number, email, tel, url, password, range, color, file, select,
    static]

def name : Kind → String
  | text => "text"
  | textarea => "textarea"
  | checkbox => "checkbox"
  | date => "date"
  | upload => "upload"
  | number => "number"
  | email => "email"
  | tel => "tel"
  | url => "url"
  | password => "password"
  | range => "range"
  | color => "color"
  | file => "file"
  | select => "select"
  | static => "static"

def ofName? (name : String) : Option Kind :=
  all.find? (·.name = name)

/-- Whether a value is written as the text of its element. -/
def isTextual : Kind → Bool
  | checkbox | upload | file | select | static => false
  | _ => true

/-- Whether a value is the source of an image. -/
def isImage : Kind → Bool
  | upload | file => true
  | _ => false

end Kind

end SvgForm

import SvgForm.Text.Quoted
import SvgForm.Value
/-! # Data

What is exchanged with other programs: scalars, lists and records. An entry of a record is looked up by
its name; of two entries with one name the first counts.
-/

namespace SvgForm

inductive Datum
  | value (v : Value)
  | list (items : List Datum)
  | record (entries : List (String × Datum))

/-- The entry of a record with this name. -/
def Datum.entry? (name : String) : Datum → Option Datum
  | .record entries => entries.lookup name
  | _ => none

mutual

/-- A datum as a literal, for a report. -/
def Datum.literal : Datum → String
  | .value (.text s) => .ofList (Text.quoted s.toList)
  | .value v => v.literal
  | .list items => "[" ++ Datum.literals items ++ "]"
  | .record entries => "\x7b" ++ Datum.entryLiterals entries ++ "\x7d"

/-- Data as literals, parted by commas. -/
def Datum.literals : List Datum → String
  | [] => ""
  | [d] => d.literal
  | d :: rest => d.literal ++ ", " ++ Datum.literals rest

/-- Entries as literals, parted by commas. -/
def Datum.entryLiterals : List (String × Datum) → String
  | [] => ""
  | [(name, d)] => .ofList (Text.quoted name.toList) ++ ": " ++ d.literal
  | (name, d) :: rest =>
    .ofList (Text.quoted name.toList) ++ ": " ++ d.literal ++ ", " ++ Datum.entryLiterals rest

end

end SvgForm

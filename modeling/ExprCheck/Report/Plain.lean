import ExprCheck.Diagnostic
import ExprCheck.Text.Style
/-! Diagnostics as lines of text: the level and the message, then the location, the notes and the
help on a line each. -/
namespace ExprCheck

def Severity.plainColor : Severity → Color
  | error => .red
  | warning => .yellow
  | note => .gray

def Diagnostic.plainText (styled : Bool) (d : Diagnostic) : String :=
  let head := d.level.plainColor.bold.apply styled d.level.name ++ ": "
    ++ ({ bold := true } : Style).apply styled d.message ++ "\n"
  let mark (c : Color) (sign text : String) : String :=
    "  " ++ c.bold.apply styled sign ++ " " ++ text ++ "\n"
  let place := d.location?.map (mark .blue "-->")
  let notes := d.notes.map fun note =>
    mark .blue "=" (Color.gray.plain.apply styled ("note: " ++ note))
  let help := d.help.map fun help =>
    mark .green "=" (Color.green.plain.apply styled ("help: " ++ help))
  String.join (head :: place.toList ++ notes ++ help)

end ExprCheck

import Metrology.Text.Column

/-!
# Help

What the calculator says about its own use.
-/

namespace Metrology

def helpText : String :=
  Text.joinLines
    ["Expressions are written in postfix (reverse-Polish) notation, one token per word:",
      "    3 4 +              -> 7±0",
      "    10+-0.1m 2s /      -> 5±0.05 m/s",
      "    2m ^3              -> 8±0 m^3",
      "",
      "Numbers:    5   -2.5E3   1.5x10^-3   9.81+-0.02m/s2   3E8±2E5m/s",
      "Units:      prefix (p n μ m c d D h k M G T) + abbreviation + exponent, one \"/\"",
      "Operators:  + - * x / ^<int> neg ans",
      "",
      "Commands:",
      "    <name> is <expression>     store a value",
      "    <name> lock <expression>   store an expression, re-evaluated on each use",
      "    clear <name>               delete a value or lock",
      "    <expression> in <unit>     show a result in the given unit",
      "    list                       show stored values and locks",
      "    constants                  show the constant table",
      "    units                      show the unit table",
      "    quit                       exit"]

end Metrology

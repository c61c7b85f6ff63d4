namespace SourceGauge.Text

/-- How many bytes the characters take in UTF-8. -/
def byteLength : List Char → Nat
  | [] => 0
  | c :: rest => c.utf8Size + byteLength rest

end SourceGauge.Text

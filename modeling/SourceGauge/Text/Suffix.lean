namespace SourceGauge.Text

/-- All suffixes, the longest first and the empty one last. -/
def suffixes : List α → List (List α)
  | [] => [[]]
  | c :: rest => (c :: rest) :: suffixes rest

/-- What follows each occurrence of `sep`. -/
def suffixesAfter [DecidableEq α] (sep : α) : List α → List (List α)
  | [] => []
  | c :: rest => if c = sep then rest :: suffixesAfter sep rest else suffixesAfter sep rest

end SourceGauge.Text

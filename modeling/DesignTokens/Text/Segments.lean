/-
Dotted paths as lists of segments.

A path is cut at every dot, so it has at least one segment, and an empty path
has exactly one, which is empty. Cutting and joining are inverse to each other
on segments without dots.
-/

namespace DesignTokens

def segments (path : String) : List String :=
  (path.toList.splitOn '.').map String.ofList

def joinSegments (parts : List String) : String :=
  String.ofList (['.'].intercalate (parts.map String.toList))

theorem joinSegments_segments (path : String) : joinSegments (segments path) = path := by
  simp [joinSegments, segments, List.map_map, Function.comp_def, List.intercalate_splitOn]

theorem segments_ne_nil (path : String) : segments path ≠ [] := by
  simp [segments, List.splitOn_ne_nil]

end DesignTokens

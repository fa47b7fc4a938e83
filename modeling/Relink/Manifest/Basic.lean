import Relink.Entries

/-!
# Manifests

The map from configured paths to the paths that replace them. Its order is the
order in which its paths are tried on a value, so it is a table: a path that is
written again keeps its place and takes the new replacement. Two manifests may
agree as maps and still differ in that order.
-/

namespace Relink

/-- Configured paths with their replacements, in the order in which they are tried;
`none` marks a path whose attribute is to be removed. -/
abbrev Manifest := Table (Option String)

end Relink

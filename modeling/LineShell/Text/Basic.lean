/-!
# Texts and bytes

A command line is a **text**, a list of Unicode scalar values; what descriptors carry is a list of
**bytes**. Both are plain lists, so the list library speaks about them directly.
-/

namespace LineShell

/-- A text: a list of Unicode scalar values. -/
abbrev Text := List Char

/-- What descriptors carry: a list of bytes. -/
abbrev Bytes := List UInt8

end LineShell

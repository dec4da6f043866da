import NodeReshape.Text

/-! The new shape of a node: the type becomes the only key of the `inner` map. The outer group is
left open, because the parenthesis that closes the old node stays in the document behind it. -/
namespace NodeReshape

def fieldIndent : Text := List.replicate 12 ' '
def entryIndent : Text := List.replicate 16 ' '

/-- The new spelling of a node with these captures. -/
def renderNode (name ty inner : Text) : Text :=
  joinLines [
    "(".toList,
    fieldIndent ++ "name: \"".toList ++ name ++ "\",".toList,
    fieldIndent ++ "inner: \x7b".toList,
    entryIndent ++ "\"".toList ++ ty ++ "\": ".toList ++ inner,
    fieldIndent ++ "\x7d".toList]

end NodeReshape

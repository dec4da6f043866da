import NodeReshape.Value

/-! Data that looks like a request to a server: it has a method, headers and a socket. In a record
it is replaced by a summary under the name `req`. -/
namespace NodeReshape

/-- Method, headers and socket are all given. -/
def isRequestLike (fields : Fields) : Bool :=
  ["method".toList, "headers".toList, "socket".toList].all fun name =>
    (lookup? name fields).any Value.truthy

/-- What a record keeps of a request: its number, method, address, query, parameters and headers,
and where it comes from. The number and the place may stand in an entry `info` instead. -/
def requestSummary (fields : Fields) : Value :=
  let entry (name : Text) (v : Option Value) : Fields := (v.map fun v => (name, v)).toList
  let given (name : Text) : Option Value := (lookup? name fields).filter Value.truthy
  let info := given "info".toList
  let connection := info <|> given "socket".toList
  let address := match given "originalUrl".toList, lookup? "path".toList fields with
    | some whole, _ => some whole
    | none, some (.string path) => some (.string path)
    | none, _ => (given "url".toList).map fun url =>
      ((url.get? "path".toList).filter Value.truthy).getD url
  .object (
    entry "id".toList (given "id".toList <|> info.bind (·.get? "id".toList)) ++
    entry "method".toList (given "method".toList) ++
    entry "url".toList address ++
    entry "query".toList (given "query".toList) ++
    entry "params".toList (given "params".toList) ++
    entry "headers".toList (given "headers".toList) ++
    entry "remoteAddress".toList (connection.bind (·.get? "remoteAddress".toList)) ++
    entry "remotePort".toList (connection.bind (·.get? "remotePort".toList)))

end NodeReshape

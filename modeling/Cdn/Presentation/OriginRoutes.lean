/-
The origin's routes.

The origin reads a file under its assets directory, and answers with all of it, with a
part of it, or with the word that the client has it already.  There are no symbolic links,
so a path is resolved on its text alone; what is read on the way is kept beside the
response.
-/
import Cdn.Domain.ByteRange
import Cdn.Lib.Paths
import Cdn.Presentation.Framework

namespace Cdn

open Paths

/-- What the origin takes from its libraries and from its disk. -/
structure OriginSetup where
  /-- `hashlib.md5(content).hexdigest()`. -/
  md5 : Bytes → String
  /-- The type `mimetypes.guess_type` gives to a path. -/
  guessType : List Char → Option String
  /-- The files there are, with their content. -/
  files : Resolved → Option Bytes

/-- A text in double quotes. -/
def quoted (text : String) : String := "\"" ++ text ++ "\""

/-- `strip('"')`. -/
def stripQuotes (text : String) : String :=
  String.ofList ((text.toList.dropWhile (· = '"')).rdropWhile (· = '"'))

/-! ### Ranges -/

/-- The answer to a range that selects nothing, or is none. -/
def unsatisfiable (total : Nat) : HttpResponse where
  statusCode := 416
  headers := Dict.ofList [("Content-Range", "bytes */" ++ toString total)]

/-- `_handle_range`, once the range is resolved. -/
def partialContent (content : Bytes) (start stop : Int) (etag contentType : String) :
    HttpResponse :=
  let part := slice content start (stop + 1)
  { content := part
    statusCode := 206
    mediaType := some contentType
    headers := Dict.ofList
      [("Content-Range", ByteRange.rangeText start stop content.length),
        ("Content-Length", toString part.length),
        ("Accept-Ranges", "bytes"),
        ("ETag", quoted etag)] }

/-- `_handle_range`. -/
def handleRange (content : Bytes) (rangeHeader etag contentType : String) : HttpResponse :=
  let total := content.length
  match ByteRange.fromHeader rangeHeader with
  | .error _ => unsatisfiable total
  | .ok [] => unsatisfiable total
  | .ok (byteRange :: _) =>
      let (start, stop) := byteRange.resolve total
      let stop := min stop ((total : Int) - 1)
      if start > stop ∨ start ≥ total then unsatisfiable total
      else partialContent content start stop etag contentType

/-! ### Files -/

/-- `(base_path / path).resolve()`; a NUL is refused by the system call. -/
def resolvePath (basePath : Resolved) (path : List Char) : Except Exn Resolved :=
  if '\x00' ∈ path then .error .value else .ok (basePath.resolve path)

/-- The outcome of a request, and the files it read. -/
structure Served where
  response : Except Exn HttpResponse
  reads : List Resolved := []

variable (O : OriginSetup)

/-- The rest of `serve_file`, once there is a file. -/
def serveContent (filePath : Resolved) (content : Bytes) (ifNoneMatch rangeHeader : Option String) :
    HttpResponse :=
  let etag := O.md5 content
  if ∃ tag ∈ ifNoneMatch, tag ≠ "" ∧ stripQuotes tag = etag then
    { statusCode := 304, headers := Dict.ofList [("ETag", quoted etag)] }
  else
    let contentType := (O.guessType filePath.text).getD "application/octet-stream"
    match rangeHeader.filter (· ≠ "") with
    | some rangeHeader => handleRange content rangeHeader etag contentType
    | none =>
        { content := content
          statusCode := 200
          mediaType := some contentType
          headers := Dict.ofList
            [("ETag", quoted etag),
              ("Content-Length", toString content.length),
              ("Accept-Ranges", "bytes")] }

def forbidden : HttpResponse := { statusCode := 403, content := utf8 "Forbidden" }

/-- `serve_file`. -/
def serveFile (basePath : Resolved) (path : List Char) (ifNoneMatch rangeHeader : Option String) :
    Served :=
  match resolvePath basePath path with
  | .error x => { response := .error x }
  | .ok filePath =>
      if ¬ basePath.text <+: filePath.text then { response := .ok forbidden }
      else match O.files filePath with
        | none => { response := .ok { statusCode := 404, content := utf8 "Not Found" } }
        | some content =>
            { response := .ok (serveContent O filePath content ifNoneMatch rangeHeader)
              reads := [filePath] }

end Cdn

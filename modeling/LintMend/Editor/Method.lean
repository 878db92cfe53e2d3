import LintMend.Editor.Shape

/-!
# Methods

The methods that an editor can name in a message, each with what the server does about it and with
the shape of its parameters. Many methods for reading code are known but not offered.
-/

namespace LintMend

/-- What the server does about a method. -/
inductive Reaction where
  | handshake
  | shutdown
  | hover
  | codeAction
  /-- Requests that get no answer but that they are not offered. -/
  | unoffered
  | initialized
  | opened
  | changed
  | saved
  | closed
  /-- A request is not wanted any more; as requests are answered at once, it has its answer. -/
  | cancelled
  /-- Notices that change nothing. -/
  | ignored
  | exit
deriving DecidableEq, Repr

namespace Reaction

/-- Requests are answered; all other methods are notices. -/
def isRequest : Reaction → Bool
  | handshake | shutdown | hover | codeAction | unoffered => true
  | _ => false

end Reaction

structure Method where
  name : String
  reaction : Reaction
  /-- Shape of the parameters; without one there must be none. -/
  params : Option Shape

namespace Method

open Shape

/-! ## Shapes -/

abbrev Members := List (String × Bool × Shape)

def position : Shape := record true [must "line" unsigned, must "character" unsigned]

def range : Shape := record true [must "start" position, must "end" position]

def document : Shape := record true [must "uri" address]

def numberOrString : Shape := either signed string

/-- Names under which a client wants to hear of the progress. -/
def progress : Members := [may "workDoneToken" numberOrString]

def partialProgress : Members := progress ++ [may "partialResultToken" numberOrString]

def inDocument : Members := [must "textDocument" document]

def atPosition : Members := inDocument ++ [must "position" position]

def inRange : Members := inDocument ++ [must "range" range]

def location : Shape := record true [must "uri" address, must "range" range]

def diagnostic : Shape :=
  record true [must "range" range, may "severity" signed, may "code" numberOrString,
    may "codeDescription" (record true [must "href" address]), may "source" string,
    must "message" string,
    may "relatedInformation"
      (list (record true [must "location" location, must "message" string])),
    may "tags" (list signed), may "data" anything]

def codeActionContext : Shape :=
  record true [must "diagnostics" (list diagnostic), may "only" (list string),
    may "triggerKind" signed]

def openedDocument : Shape :=
  record true [must "uri" address, must "languageId" string, must "version" signed,
    must "text" string]

def versionedDocument : Shape := record true [must "uri" address, must "version" signed]

def contentChange : Shape :=
  record true [may "range" range, may "rangeLength" unsigned, must "text" string]

def folder : Shape := record true [must "uri" address, must "name" string]

def anyObject : Shape := record false []

def clientCapabilities : Shape :=
  record false [may "workspace" anyObject, may "textDocument" anyObject, may "window" anyObject,
    may "general" anyObject, may "experimental" anything]

def handshakeParams : Shape :=
  record false [may "processId" unsigned, may "rootPath" string, may "rootUri" address,
    may "initializationOptions" anything, must "capabilities" clientCapabilities,
    may "trace" (word ["off", "messages", "verbose"]), may "workspaceFolders" (list folder),
    may "clientInfo" (record true [must "name" string, may "version" string]),
    may "locale" string]

def formattingOptions : Shape :=
  record false [must "tabSize" unsigned, must "insertSpaces" boolean,
    may "trimTrailingWhitespace" boolean, may "insertFinalNewline" boolean,
    may "trimFinalNewlines" boolean]

/-- A symbol whose callers or whose kind can be asked for. -/
def hierarchyItem : Shape :=
  record false [must "name" string, must "kind" signed, may "tags" anything, may "detail" string,
    must "uri" address, must "range" range, must "selectionRange" range, may "data" anything]

def renamedFile : Shape := record true [must "oldUri" string, must "newUri" string]

def namedFile : Shape := record true [must "uri" string]

/-! ## The methods -/

def served : List Method :=
  [⟨"initialize", .handshake, some handshakeParams⟩,
    ⟨"initialized", .initialized, some (record true [])⟩,
    ⟨"shutdown", .shutdown, none⟩,
    ⟨"exit", .exit, some anything⟩,
    ⟨"$/cancelRequest", .cancelled, some anything⟩,
    ⟨"textDocument/didOpen", .opened, some (record true [must "textDocument" openedDocument])⟩,
    ⟨"textDocument/didChange", .changed,
      some (record true [must "textDocument" versionedDocument,
        must "contentChanges" (list contentChange)])⟩,
    ⟨"textDocument/didSave", .saved,
      some (record true [must "textDocument" document, may "text" string])⟩,
    ⟨"textDocument/didClose", .closed, some (record true inDocument)⟩,
    ⟨"textDocument/hover", .hover, some (record false (atPosition ++ progress))⟩,
    ⟨"textDocument/codeAction", .codeAction,
      some (record false (inRange ++ [must "context" codeActionContext] ++ partialProgress))⟩]

def ignoredNotices : List Method :=
  ["textDocument/willSave", "workspace/didChangeConfiguration",
    "workspace/didChangeWorkspaceFolders", "workspace/didChangeWatchedFiles",
    "workspace/didCreateFiles", "workspace/didRenameFiles", "workspace/didDeleteFiles"].map
    fun name ↦ ⟨name, .ignored, some anything⟩

def unofferedShapes : List (String × Shape) :=
  [("textDocument/willSaveWaitUntil",
      record true [must "textDocument" document, must "reason" signed]),
    ("textDocument/declaration", record false (atPosition ++ partialProgress)),
    ("textDocument/definition", record false (atPosition ++ partialProgress)),
    ("textDocument/typeDefinition", record false (atPosition ++ partialProgress)),
    ("textDocument/implementation", record false (atPosition ++ partialProgress)),
    ("textDocument/references",
      record false (atPosition ++ partialProgress ++
        [must "context" (record true [must "includeDeclaration" boolean])])),
    ("textDocument/prepareCallHierarchy", record false (atPosition ++ progress)),
    ("callHierarchy/incomingCalls",
      record false (must "item" hierarchyItem :: partialProgress)),
    ("callHierarchy/outgoingCalls",
      record false (must "item" hierarchyItem :: partialProgress)),
    ("textDocument/prepareTypeHierarchy", record false (atPosition ++ progress)),
    ("typeHierarchy/supertypes", record false (must "item" hierarchyItem :: partialProgress)),
    ("typeHierarchy/subtypes", record false (must "item" hierarchyItem :: partialProgress)),
    ("textDocument/documentHighlight", record false (atPosition ++ partialProgress)),
    ("textDocument/documentLink", record false (inDocument ++ partialProgress)),
    ("documentLink/resolve",
      record true [must "range" range, may "target" address, may "tooltip" string,
        may "data" anything]),
    ("textDocument/codeLens", record false (inDocument ++ partialProgress)),
    ("codeLens/resolve",
      record true [must "range" range, may "command" anyObject, may "data" anything]),
    ("textDocument/foldingRange", record false (inDocument ++ partialProgress)),
    ("textDocument/selectionRange",
      record false (inDocument ++ [must "positions" (list position)] ++ partialProgress)),
    ("textDocument/documentSymbol", record false (inDocument ++ partialProgress)),
    ("textDocument/semanticTokens/full", record false (inDocument ++ partialProgress)),
    ("textDocument/semanticTokens/full/delta",
      record false (inDocument ++ [must "previousResultId" string] ++ partialProgress)),
    ("textDocument/semanticTokens/range", record false (inRange ++ partialProgress)),
    ("textDocument/inlineValue",
      record false (inRange ++ progress ++
        [must "context" (record true [must "frameId" signed, must "stoppedLocation" range])])),
    ("textDocument/inlayHint", record false (inRange ++ progress)),
    ("inlayHint/resolve", record false [must "position" position, must "label" anything]),
    ("textDocument/moniker", record false (atPosition ++ partialProgress)),
    ("textDocument/completion",
      record false (atPosition ++ partialProgress ++
        [may "context" (record true [must "triggerKind" signed, may "triggerCharacter" string])])),
    ("completionItem/resolve", record false [must "label" string]),
    ("textDocument/diagnostic",
      record false (inDocument ++ [may "identifier" string, may "previousResultId" string]
        ++ partialProgress)),
    ("workspace/diagnostic",
      record false (may "identifier" string ::
        must "previousResultIds" (list (record true [must "uri" address, must "value" string]))
          :: partialProgress)),
    ("textDocument/signatureHelp",
      record false (atPosition ++ progress ++
        [may "context" (record false [must "triggerKind" signed, may "triggerCharacter" string,
          must "isRetrigger" boolean])])),
    ("codeAction/resolve",
      record false [must "title" string, may "kind" string, may "diagnostics" (list diagnostic),
        may "isPreferred" boolean]),
    ("textDocument/documentColor", record false (inDocument ++ partialProgress)),
    ("textDocument/colorPresentation",
      record false (inRange ++ [must "color" anyObject] ++ partialProgress)),
    ("textDocument/formatting",
      record false (inDocument ++ [must "options" formattingOptions] ++ progress)),
    ("textDocument/rangeFormatting",
      record false (inRange ++ [must "options" formattingOptions] ++ progress)),
    ("textDocument/onTypeFormatting",
      record false (atPosition ++ [must "ch" string, must "options" formattingOptions])),
    ("textDocument/rename", record false (atPosition ++ [must "newName" string] ++ progress)),
    ("textDocument/prepareRename", record true atPosition),
    ("textDocument/linkedEditingRange", record false (atPosition ++ progress)),
    ("workspace/symbol", record false (must "query" string :: partialProgress)),
    ("workspaceSymbol/resolve",
      record false [must "name" string, must "kind" signed, must "location" anyObject]),
    ("workspace/willCreateFiles", record true [must "files" (list namedFile)]),
    ("workspace/willRenameFiles", record true [must "files" (list renamedFile)]),
    ("workspace/willDeleteFiles", record true [must "files" (list namedFile)]),
    ("workspace/executeCommand",
      record false (must "command" string :: may "arguments" (list anything) :: progress))]

def all : List Method :=
  served ++ ignoredNotices
    ++ unofferedShapes.map fun (name, shape) ↦ ⟨name, .unoffered, some shape⟩

def named? (name : String) : Option Method := all.find? (·.name == name)

/-- The parameters of a message as the method knows them; `none` if they do not fit. A method
without parameters knows them as null. -/
def readParams? (method : Method) (params : Option Json) : Option Json :=
  match method.params, params with
  | some shape, some json => shape.read? json
  | none, none => some .null
  | _, _ => none

end Method

end LintMend

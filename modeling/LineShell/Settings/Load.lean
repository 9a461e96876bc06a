import LineShell.Settings.Document
import LineShell.World.Directories

namespace LineShell

namespace Storage

def makeDirectories (storage : Storage) (path : Bytes) (w : World) : Option Cause × World :=
  match storage with
  | .memory => (none, { w with memory := w.memory.makeDirectories path })
  | .disk => w.makeDirectories path

def status (storage : Storage) (path : Bytes) (w : World) : Except Cause Unit :=
  match storage with
  | .memory =>
    if (w.memory.find? path).isSome then .ok ()
    else .error (.onPath (ascii "open") (Memory.normalize path) .notExist)
  | .disk =>
    match w.tree.find w.cwd path with
    | .ok _ => .ok ()
    | .error e => .error (.onPath (ascii "stat") path (.errno e))

def save (storage : Storage) (path data : Bytes) (w : World) : Option Cause × World :=
  match storage with
  | .memory => (none, { w with memory := w.memory.write path data })
  | .disk =>
    match w.openFile path .overwrite with
    | (.error e, w) => (some (.onPath (ascii "open") path (.errno e)), w)
    | (.ok f, w) =>
      match w.write f data with
      | (some e, w) => (some (.onPath (ascii "write") path (.errno e)), (w.close f).2)
      | (none, w) =>
        match w.close f with
        | (.error e, w) => (some e, w)
        | (.ok (), w) => (none, w)

end Storage

namespace Settings

def defaultDocument : Bytes :=
  Bytes.join [Bytes.newline] <| List.map ascii
    ["# Name printed in front of error messages.",
      "shell_name: myshell",
      "",
      "# Prompt template: \\u is the user, \\h the host, \\w the working directory and",
      "# \\$ becomes '#' for root and '$' for everyone else.",
      "prompt: '\\w $ '",
      "",
      "# Color the prompt: always, auto or never.",
      "color: auto",
      "",
      "# Interactive history. A leading ~/ is the home directory.",
      "history_file: ~/.myshell_history",
      "history_limit: 500",
      "",
      "# Directories searched for programs after PATH and the shell's own directory.",
      "extra_path: []",
      "",
      "# Newline delimited JSON event log, relative to the configuration directory.",
      "# Empty disables the log.",
      "event_log: \"\"",
      "",
      "# Log every pipeline before it runs.",
      "debug: false",
      ""]

def directoryOf (path : Bytes) : Bytes := if Path.base path = fileName then Path.directory path else path

def load (storage : Storage) (path : Bytes) (w : World) : Except SettingsFault Settings :=
  let directory := directoryOf path
  match storage.contents (Path.join [directory, fileName]) w with
  | .error cause => .error (.unreadable cause)
  | .ok text => (parse text).map ({ · with storage := storage, directory := directory })

def loadOrDefault (path : Bytes) (w : World) : Except SettingsFault Settings :=
  match load .disk path w with
  | .error (.unreadable cause) =>
    if cause.isMissing then .ok { directory := path } else .error (.unreadable cause)
  | result => result

def setUp (storage : Storage) (directory : Bytes) (tell : Bytes → World → World) (w : World) :
    Except SettingsFault Settings × World :=
  match storage.makeDirectories directory w with
  | (some cause, w) => (.error (.unreadable cause), w)
  | (none, w) =>
    let path := Path.join [directory, fileName]
    match storage.status path w with
    | .ok () =>
      let w := tell (ascii "Configuration already exists: " ++ path) w
      (load storage directory w, w)
    | .error cause =>
      if cause.isMissing then
        let w := tell (ascii "Writing default configuration: " ++ path) w
        match storage.save path defaultDocument w with
        | (some cause, w) => (.error (.unreadable cause), w)
        | (none, w) => (load storage directory w, w)
      else (.error (.unreadable cause), w)

end Settings
end LineShell

import Watermark.Script.Dialect
import Watermark.Command.Template
import Watermark.Settings.Basic

/-!
# Batch scripts

A batch script has four parts: it makes the output folder, opens a loop over the sources, runs the command on one
of them, and closes the loop. All four are written from a `Layout`, the folders and the extension of the edit,
already escaped for the dialect. The names of the loop's variables are the script's own and are never escaped.
-/

namespace Watermark

/-- The folders and the extension of a batch, escaped for its dialect. -/
structure Layout where
  inputFolder : Text
  /-- The output folder with the input folder before it. -/
  outputFolder : Text
  extension : Text
deriving DecidableEq

def Layout.ofSettings (d : Dialect) (s : Settings) : Layout where
  inputFolder := d.escape s.inputFolder
  outputFolder := d.escape (d.join s.inputFolder s.outputFolder)
  extension := d.escape s.extension

namespace Dialect

/-- The loop variable: the file at hand. -/
def currentFile : Dialect → Text
  | .windows => "%%f".toList
  | .posix => "$f".toList

/-- The file at hand without its folder and extension. -/
def currentBase : Dialect → Text
  | .windows => "%%~nf".toList
  | .posix => "$base".toList

def indent : Text := "    ".toList

/-- The output file of the file at hand. -/
def outputFile (d : Dialect) (l : Layout) : Text :=
  d.join l.outputFolder (d.currentBase ++ '.' :: l.extension)

/-- The command for the file at hand. -/
def invocation (d : Dialect) (t : Template) (l : Layout) : Text :=
  indent ++ t.render d.escape d.currentFile (d.outputFile l)

/-- Starts the script and makes the output folder. -/
def setup (d : Dialect) (l : Layout) : List Text :=
  match d with
  | .windows =>
    ["@echo off".toList,
      "if not exist \"".toList ++ l.outputFolder ++ "\" mkdir \"".toList ++ l.outputFolder ++ "\"".toList,
      "echo Processing ".toList ++ l.extension ++ " files...".toList]
  | .posix =>
    ["#!/bin/bash".toList,
      "mkdir -p \"".toList ++ l.outputFolder ++ "\"".toList,
      "echo \"Processing ".toList ++ l.extension ++ " files...\"".toList]

/-- The files of the extension. -/
def glob (l : Layout) : Text := "*.".toList ++ l.extension

/-- Opens the loop. A shell expands a glob only outside quotes, so there the folder alone is quoted. -/
def header (d : Dialect) (l : Layout) : List Text :=
  match d with
  | .windows =>
    ["for %%f in (\"".toList ++ d.join l.inputFolder (glob l) ++ "\") do (".toList]
  | .posix =>
    if l.inputFolder.isEmpty then ["for f in ".toList ++ glob l ++ "; do".toList]
    else
      ["for f in \"".toList ++ l.inputFolder.dropTrailing d.isSeparator ++ "\"/".toList ++ glob l
        ++ "; do".toList]

/-- The body of the loop. A shell leaves a glob without files as it is, so the body passes over what does not
exist. -/
def body (d : Dialect) (t : Template) (l : Layout) : List Text :=
  match d with
  | .windows =>
    [indent ++ "echo Processing: %%f".toList,
      d.invocation t l]
  | .posix =>
    [indent ++ "[ -e \"$f\" ] || continue".toList,
      indent ++ "filename=$(basename -- \"$f\")".toList,
      indent ++ "base=\"$\x7bfilename%.*\x7d\"".toList,
      indent ++ "echo \"Processing: $f\"".toList,
      d.invocation t l]

/-- Closes the loop and says that it is over. -/
def footer : Dialect → List Text
  | .windows => [")".toList, "echo Done!".toList, "pause".toList]
  | .posix => ["done".toList, "echo \"Done!\"".toList]

/-- All lines of the script for a layout. -/
def scriptLines (d : Dialect) (t : Template) (l : Layout) : List Text :=
  d.setup l ++ d.header l ++ d.body t l ++ d.footer

/-- The script of an edit, without a line feed at its end. -/
def script (d : Dialect) (t : Template) (s : Settings) : Text :=
  Text.lines (d.scriptLines t (.ofSettings d s))

end Dialect

end Watermark

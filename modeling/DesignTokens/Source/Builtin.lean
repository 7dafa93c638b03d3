/-
The built-in token sources.

Five trees in search priority: aliases, the core palette and scales, the light
and dark themes, and tokens for the web. The children of every group are in the
order of their names.
-/
import DesignTokens.Source.Registry

namespace DesignTokens

def aliasName : String := "alias"

def coreName : String := "core"

def lightName : String := "light"

def darkName : String := "dark"

def webName : String := "web"

namespace Builtin

def typed (kind : String) (value : Value) : TokenNode :=
  .leaf ⟨value, some kind, none⟩

def reference (path : String) : Value :=
  .string (referenceText path)

def solidBorder (color width : String) : Value :=
  .object [("color", reference color), ("style", .string "solid"), ("width", reference width)]

def shadowLayer (kind : String) (x y blur spread : Int) (color : String) : Value :=
  .object [
    ("blur", .number (.ofInt blur)),
    ("color", reference color),
    ("spread", .number (.ofInt spread)),
    ("type", .string kind),
    ("x", .number (.ofInt x)),
    ("y", .number (.ofInt y))]

def aliasTree : TokenTree := ⟨none, [
  ("borderRadius", .group none [
    ("input", typed "borderRadius" (reference "borderRadius.m"))]),
  ("brand", .group none [
    ("primary", typed "color" (reference "blue.600")),
    ("primary-subtle", typed "color" (reference "blue.400"))]),
  ("negative", .group none [
    ("default", typed "color" (reference "red.600")),
    ("subtle", typed "color" (reference "red.400"))]),
  ("neutral", .group none [
    ("0", typed "color" (reference "grey.light.0")),
    ("100", typed "color" (reference "grey.light.100")),
    ("1000", typed "color" (reference "grey.light.1000")),
    ("300", typed "color" (reference "grey.light.300")),
    ("50", typed "color" (reference "grey.light.50")),
    ("500", typed "color" (reference "grey.light.500")),
    ("700", typed "color" (reference "grey.light.700")),
    ("800", typed "color" (reference "grey.light.800")),
    ("900", typed "color" (reference "grey.light.900"))])]⟩

def coreTree : TokenTree := ⟨none, [
  ("blue", .group none [
    ("400", typed "color" (.string "#53b1fd")),
    ("600", typed "color" (.string "#1570ef")),
    ("700", typed "color" (.string "#175cd3"))]),
  ("borderRadius", .group none [
    ("l", typed "borderRadius" (.string "12px")),
    ("m", typed "borderRadius" (.string "8px")),
    ("s", typed "borderRadius" (.string "4px"))]),
  ("borderWidth", .group none [
    ("l", typed "borderWidth" (.string "3px")),
    ("m", typed "borderWidth" (.string "2px")),
    ("s", typed "borderWidth" (.string "1px")),
    ("xl", typed "borderWidth" (.string "4px"))]),
  ("fontFamilies", .group none [
    ("body", typed "fontFamilies" (.string "Inter, sans-serif")),
    ("title", typed "fontFamilies" (reference "fontFamilies.body"))]),
  ("fontSize", .group none [
    ("l", typed "fontSizes" (.string "18px")),
    ("m", typed "fontSizes" (.string "16px")),
    ("s", typed "fontSizes" (.string "14px")),
    ("xl", typed "fontSizes" (.string "20px")),
    ("xs", typed "fontSizes" (.string "12px"))]),
  ("fontWeights", .group none [
    ("400", typed "fontWeights" (.number (.ofInt 400))),
    ("500", typed "fontWeights" (.number (.ofInt 500))),
    ("600", typed "fontWeights" (.number (.ofInt 600))),
    ("700", typed "fontWeights" (.number (.ofInt 700)))]),
  ("grey", .group (some "color") [
    ("light", .group none [
      ("0", typed "color" (.string "#ffffff")),
      ("100", typed "color" (.string "#f2f4f7")),
      ("1000", typed "color" (.string "#000000")),
      ("200", typed "color" (.string "#e4e7ec")),
      ("300", typed "color" (.string "#d0d5dd")),
      ("400", typed "color" (.string "#98a2b3")),
      ("50", typed "color" (.string "#f9fafb")),
      ("500", typed "color" (.string "#667085")),
      ("600", typed "color" (.string "#475467")),
      ("700", typed "color" (.string "#344054")),
      ("800", typed "color" (.string "#1d2939")),
      ("900", typed "color" (.string "#101828"))])]),
  ("lineHeights", .group none [
    ("m", typed "lineHeights" (.string "24px")),
    ("s", typed "lineHeights" (.string "20px")),
    ("xs", typed "lineHeights" (.string "16px"))]),
  ("red", .group none [
    ("400", typed "color" (.string "#f97066")),
    ("600", typed "color" (.string "#d92d20"))]),
  ("shadow", .group none [
    ("color", .group none [
      ("medium", typed "color" (.string "#1018281a")),
      ("soft", typed "color" (.string "#1018280d")),
      ("strong", typed "color" (.string "#10182833"))])]),
  ("sizing", .group none [
    ("4xl", typed "sizing" (.string "64px")),
    ("l", typed "sizing" (.string "24px")),
    ("m", typed "sizing" (.string "20px")),
    ("s", typed "sizing" (.string "16px")),
    ("xl", typed "sizing" (.string "32px"))]),
  ("spacing", .group none [
    ("2xl", typed "spacing" (.string "48px")),
    ("2xs", typed "spacing" (.string "4px")),
    ("3xs", typed "spacing" (.string "2px")),
    ("l", typed "spacing" (.string "24px")),
    ("m", typed "spacing" (.string "16px")),
    ("s", typed "spacing" (.string "12px")),
    ("xl", typed "spacing" (.string "32px")),
    ("xs", typed "spacing" (.string "8px"))])]⟩

def lightTree : TokenTree := ⟨none, [
  ("bg", .group none [
    ("default", typed "color" (reference "neutral.0")),
    ("default-strong", typed "color" (reference "neutral.50")),
    ("default-stronger", typed "color" (reference "neutral.100")),
    ("disabled", typed "color" (reference "neutral.100"))]),
  ("border", .group none [
    ("active", typed "color" (reference "brand.primary")),
    ("input", typed "color" (reference "neutral.300")),
    ("input-strong", typed "color" (reference "neutral.500")),
    ("negative", typed "color" (reference "negative.default"))]),
  ("content", .group none [
    ("disabled", typed "color" (reference "neutral.300")),
    ("primary", typed "color" (reference "neutral.900")),
    ("secondary", typed "color" (reference "neutral.700"))])]⟩

def darkTree : TokenTree := ⟨none, [
  ("bg", .group none [
    ("default", typed "color" (reference "neutral.900")),
    ("default-strong", typed "color" (reference "neutral.800")),
    ("default-stronger", typed "color" (reference "neutral.700")),
    ("disabled", typed "color" (reference "neutral.800"))]),
  ("border", .group none [
    ("active", typed "color" (reference "brand.primary-subtle")),
    ("input", typed "color" (reference "neutral.700")),
    ("input-strong", typed "color" (reference "neutral.500")),
    ("negative", typed "color" (reference "negative.subtle"))]),
  ("content", .group none [
    ("disabled", typed "color" (reference "neutral.500")),
    ("primary", typed "color" (reference "neutral.0")),
    ("secondary", typed "color" (reference "neutral.300"))])]⟩

def webTree : TokenTree := ⟨none, [
  ("borders", .group none [
    ("input", .group none [
      ("active", typed "border" (solidBorder "brand.primary" "borderWidth.m")),
      ("error", typed "border" (solidBorder "negative.default" "borderWidth.m")),
      ("hover", typed "border" (solidBorder "neutral.500" "borderWidth.s")),
      ("primary", typed "border" (solidBorder "neutral.300" "borderWidth.s"))])]),
  ("boxShadow", .group none [
    ("l", typed "boxShadow" (.array [
        shadowLayer "dropShadow" 0 12 16 (-4) "shadow.color.medium",
        shadowLayer "innerShadow" 0 1 2 0 "shadow.color.strong"])),
    ("m", typed "boxShadow" (.array [
        shadowLayer "dropShadow" 0 4 8 (-2) "shadow.color.medium",
        shadowLayer "dropShadow" 0 2 4 (-2) "shadow.color.soft"])),
    ("s", typed "boxShadow" (.array [
        shadowLayer "dropShadow" 0 1 2 0 "shadow.color.soft"]))])]⟩

end Builtin

def SourceRegistry.builtin : SourceRegistry where
  sources := [
    ⟨aliasName, Builtin.aliasTree⟩,
    ⟨coreName, Builtin.coreTree⟩,
    ⟨lightName, Builtin.lightTree⟩,
    ⟨darkName, Builtin.darkTree⟩,
    ⟨webName, Builtin.webTree⟩]
  distinct := by decide

end DesignTokens
